import Dxl.Token.Basic
import Dxl.Token.Lexeme

/-! Cutting a source text into tokens without losing a character. -/

namespace Dxl

/-- The kind of a lexeme, from its text and from whether the token before it continues its line. -/
def Lexeme.kind (lexeme : Lexeme) (text : String) (continued : Bool) : TokenKind :=
  -- Words may be reserved, and a line break ends the statement unless it is continued.
  match lexeme with
  | .word | .directive =>
    match Keyword.ofSpelling? text with
    | some reserved => .keyword reserved
    | none => .name
  | .integer => .integer
  | .real => .real
  | .string => .string
  | .comment => .comment
  | .spaces => .spaces
  | .tabs => .tabs
  | .lineBreak => if continued then .softBreak else .hardBreak
  | .sign mark => .sign mark
  | .unknown => .unknown

/-- The tokens of the remaining characters, which begin at the given offset. -/
def tokensFrom (continued : Bool) (start : Nat) (chars : List Char) : List Token :=
  -- Every token takes at least the first character, so fewer characters remain after it.
  match chars with
  | [] => [⟨.endOfText, "", start⟩]
  | c :: rest =>
    let (lexeme, more) := lexemeAt c rest
    let text := String.ofList (c :: rest.take more)
    let token : Token := ⟨lexeme.kind text continued, text, start⟩
    token :: tokensFrom token.continuesLine token.stop (rest.drop more)
termination_by chars.length
decreasing_by
  simp only [List.length_drop, List.length_cons]
  omega

/-- The tokens of a source text, the last of which is the empty token at its end. -/
def tokenize (text : String) : List Token :=
  tokensFrom false 0 text.toList

end Dxl
