import Dxl.Kind.Basic

/-! The shapes of lexemes, and how far the lexeme at the head of a text reaches. -/

namespace Dxl

/-- The shape of a run of characters, before its text or its surroundings refine it to a kind. -/
inductive Lexeme where
  | word
  /-- A word after a number sign. -/
  | directive
  | integer
  | real
  | string
  | comment
  | spaces
  | tabs
  | lineBreak
  | sign (mark : Sign)
  | unknown
deriving DecidableEq

/-- Characters that continue a word. -/
def isWordChar (c : Char) : Bool :=
  -- Letters and digits are those of ASCII.
  c.isAlphanum || c == '_'

/-- The number of characters at the head of a text that pass a test. -/
def runLength (test : Char → Bool) (chars : List Char) : Nat :=
  (chars.takeWhile test).length

/-- The length of an exponent, whose digits may be missing. -/
def exponentLength : List Char → Nat
  | 'e' :: rest | 'E' :: rest => 1 + runLength Char.isDigit rest
  | _ => 0

/-- The shape of a number and how far it reaches after its first digit. -/
def numberAfter (rest : List Char) : Lexeme × Nat :=
  -- A point makes the number real even without digits after it, and so does an exponent.
  let whole := runLength Char.isDigit rest
  match rest.drop whole with
  | '.' :: fraction =>
    let digits := runLength Char.isDigit fraction
    (.real, whole + 1 + digits + exponentLength (fraction.drop digits))
  | tail =>
    match exponentLength tail with
    | 0 => (.integer, whole)
    | exponent => (.real, whole + exponent)

/-- How far a quoted text reaches after its opening quote, the closing quote included. -/
def quotedLength (quote : Char) : List Char → Nat
  | [] => 0
  | '\\' :: [] => 1
  | '\\' :: _ :: rest => 2 + quotedLength quote rest
  | c :: rest => if c == quote then 1 else 1 + quotedLength quote rest

/-- How far a block comment reaches up to and including the first star and slash. -/
def blockLength : List Char → Nat
  | [] => 0
  | '*' :: '/' :: _ => 2
  | _ :: rest => 1 + blockLength rest

/-- Whether a character stays on its line. -/
def staysOnLine (c : Char) : Bool :=
  c != '\n' && c != '\r'

/-- The comment that a slash begins, by its length after the slash. -/
def commentAfterSlash? : List Char → Option Nat
  | '/' :: rest => some (1 + runLength staysOnLine rest)
  -- The star that opens a block comment may close it as well.
  | '*' :: '/' :: _ => some 2
  | '*' :: rest => some (1 + blockLength rest)
  | _ => none

/-- The sign at the head of a text, or a single unknown character. -/
def signOrUnknown (c : Char) (rest : List Char) : Lexeme × Nat :=
  match Sign.longest? (c :: rest) with
  | some mark => (.sign mark, mark.spelling.length - 1)
  | none => (.unknown, 0)

/-- The lexeme that begins with a character, by its shape and its length after that character. -/
def lexemeAt (c : Char) (rest : List Char) : Lexeme × Nat :=
  -- Each shape is told by its first character, except that a slash also begins comments.
  if c.isAlpha then (.word, runLength isWordChar rest)
  else if c.isDigit then numberAfter rest
  else if c == '#' then (.directive, runLength isWordChar rest)
  else if c == '"' || c == '\'' then (.string, quotedLength c rest)
  else if c == ' ' then (.spaces, runLength (· == ' ') rest)
  else if c == '\t' then (.tabs, runLength (· == '\t') rest)
  else if c == '\n' then (.lineBreak, 0)
  else if c == '\r' then (.lineBreak, if rest.head? == some '\n' then 1 else 0)
  else if c == '/' then
    match commentAfterSlash? rest with
    | some length => (.comment, length)
    | none => signOrUnknown c rest
  else signOrUnknown c rest

end Dxl
