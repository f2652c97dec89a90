import Dxl.Grammar.Mistake
import Dxl.Grammar.Rule
import Dxl.Token.Basic

/-! Parsers: programs that read tokens one after the other and say which nodes they make of them. -/

namespace Dxl

/-- What the grammar sees of a token. -/
structure Symbol where
  kind : TokenKind
  namesType : Bool
deriving DecidableEq

/-- What the grammar sees of this token. -/
def Token.symbol (token : Token) : Symbol :=
  ⟨token.kind, token.namesType⟩

/-- A program over the tokens of a source text; it has no meaning of its own until it is run. -/
inductive Parser : Type → Type 1 where
  /-- Nothing more to do. -/
  | done {α : Type} (value : α) : Parser α
  /-- One program, and then another that depends on what it gave. -/
  | andThen {α β : Type} (first : Parser α) (next : α → Parser β) : Parser β
  /-- Looks at the next token. -/
  | look : Parser Symbol
  /-- Reads the next token into the open node. -/
  | bump : Parser Unit
  /-- Notes a mistake at the next token. -/
  | report (mistake : Mistake) : Parser Unit
  /-- Opens a node and closes it as the kind that its body gives. -/
  | node (body : Parser NodeKind) : Parser NodeKind
  /-- Marks the place of an operand, which is the first node that the body makes. -/
  | frame {α : Type} (body : Parser α) : Parser α
  /-- Opens a node around the operand of the frame and all that follows it, and closes it as the kind that its body gives. -/
  | wrap (body : Parser NodeKind) : Parser NodeKind
  /-- Tells whether a body reads anything but trivia. -/
  | progress (body : Parser Unit) : Parser Bool
  /-- Runs a rule of the grammar. -/
  | call (rule : Rule) : Parser Unit

namespace Parser

instance : Monad Parser where
  pure := .done
  bind := .andThen

/-- Makes a node of the given kind of what a parser reads. -/
def nodeOf (kind : NodeKind) (body : Parser Unit) : Parser Unit := do
  let _ ← node (do body; return kind)

/-- Wraps the operand of the frame into a node of the given kind. -/
def wrapIn (kind : NodeKind) (body : Parser Unit) : Parser Unit := do
  let _ ← wrap (do body; return kind)

/-- Makes a node of the next token alone. -/
def bumpAs (kind : NodeKind) : Parser Unit :=
  nodeOf kind bump

/-- Whether the next token is of the given kind. -/
def nextIs (kind : TokenKind) : Parser Bool := do
  return (← look).kind == kind

/-- Whether the next token is of one of the given kinds. -/
def nextIsOneOf (kinds : List TokenKind) : Parser Bool := do
  return kinds.contains (← look).kind

/-- Whether nothing is left but the end of the text. -/
def atEnd : Parser Bool :=
  nextIs .endOfText

/-- Whether the next token ends a statement. -/
def atStatementEnd : Parser Bool := do
  return (← look).kind.endsStatement

/-- Whether the next token names a type. -/
def atType : Parser Bool := do
  return (← look).namesType

/-- Reads the next token if it is of the given kind, and tells whether it did. -/
def accept (kind : TokenKind) : Parser Bool := do
  if ← nextIs kind then
    bump
    return true
  else
    return false

/-- Notes that one kind of token is missing. -/
def missing (kind : TokenKind) : Parser Unit := do
  report (.expected kind (← look).kind)

/-- Reads a token of the given kind, or notes that it is missing; tells whether it was there. -/
def expect (kind : TokenKind) : Parser Bool := do
  if ← accept kind then
    return true
  else
    missing kind
    return false

/-- Reads a token of the given kind, or notes that it is missing. -/
def require (kind : TokenKind) : Parser Unit := do
  let _ ← expect kind

/-- Reads the next token if it is of the given kind. -/
def skip (kind : TokenKind) : Parser Unit := do
  let _ ← accept kind

end Parser

end Dxl
