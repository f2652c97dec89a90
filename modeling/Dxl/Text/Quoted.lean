/-! Quoted text: characters that would be invisible or end the text are escaped. -/

namespace Dxl

/-- The lower-case hexadecimal digits of a number, without leading zeros. -/
def hexDigits (n : Nat) : List Char :=
  Nat.toDigits 16 n

/-- Whether a character only controls how others are shown. -/
def isControl (c : Char) : Bool :=
  -- These are the first thirty-two characters, the deletion mark and the thirty-two after it.
  c.toNat < 0x20 || (0x7f ≤ c.toNat && c.toNat < 0xa0)

/-- A character as it is written inside of quotes; one that is hidden is written by its number, unless it has an escape of its own. -/
def escapeChar (isHidden : Char → Bool) (c : Char) : List Char :=
  match c with
  | '"' => ['\\', '"']
  | '\\' => ['\\', '\\']
  | '\n' => ['\\', 'n']
  | '\r' => ['\\', 'r']
  | '\t' => ['\\', 't']
  | '\x00' => ['\\', '0']
  | _ => if isHidden c then ['\\', 'u', '{'] ++ hexDigits c.toNat ++ ['}'] else [c]

/-- A text in double quotes. Which characters are hidden depends on what can be shown; control characters always are. -/
def quote (text : String) (isHidden : Char → Bool := isControl) : String :=
  String.ofList ('"' :: text.toList.flatMap (escapeChar isHidden) ++ ['"'])

end Dxl
