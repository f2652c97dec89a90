import Dxl.Kind.Basic

/-! Tokens: pieces of a source text with their kind and place. -/

namespace Dxl

/-- A piece of a source text, its kind, and the byte offset at which it begins. -/
structure Token where
  kind : TokenKind
  text : String
  start : Nat
deriving DecidableEq

namespace Token

/-- The byte offset right after a token. -/
def stop (token : Token) : Nat :=
  token.start + token.text.utf8ByteSize

/-- Whether a token names a type. -/
def namesType (token : Token) : Bool :=
  token.kind.namesType token.text

/-- Whether a line break right after a token stays inside the statement. -/
def continuesLine (token : Token) : Bool :=
  -- A comment asks for continuation with a final hyphen, every other token by its kind.
  match token.kind with
  | .comment => token.text.toList.getLast? == some '-'
  | kind => kind.continuesLine

end Token

/-- The texts of some tokens, joined. -/
def joinTexts (tokens : List Token) : String :=
  String.join (tokens.map Token.text)

end Dxl
