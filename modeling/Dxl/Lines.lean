/-! Lines of a source text, and the conversion between byte offsets and line/column positions. -/

namespace Dxl

/-- A zero-based line and a column counted in bytes. -/
structure Position where
  line : Nat
  column : Nat
deriving DecidableEq

/-- The line layout of a text: where the lines after the first begin, and how long the text is. -/
structure LineIndex where
  laterStarts : List Nat
  length : Nat
deriving DecidableEq

namespace LineIndex

/-- The offset at which every line begins; the first line always begins at zero. -/
def starts (index : LineIndex) : List Nat :=
  0 :: index.laterStarts

/-- The number of lines, of which there is always at least one. -/
def lineCount (index : LineIndex) : Nat :=
  index.starts.length

/-- The line and column of an offset; an offset past the end counts as the end. -/
def position (index : LineIndex) (offset : Nat) : Position :=
  -- The line is the last one that begins at or before the offset.
  let inside := min offset index.length
  let line := (index.laterStarts.takeWhile (· ≤ inside)).length
  ⟨line, inside - index.starts.getD line 0⟩

/-- Where the line after the given one begins, or the end of the text. -/
def lineEnd (index : LineIndex) (line : Nat) : Nat :=
  index.starts.getD (line + 1) index.length

/-- The offset of a position, kept within its line, or the end for a line that does not exist. -/
def offset (index : LineIndex) (position : Position) : Nat :=
  -- A column past its line stops where the next line begins, or at the end of the text.
  match index.starts[position.line]? with
  | none => index.length
  | some start => min (start + position.column) (index.lineEnd position.line)

end LineIndex

/-- Whether a character ends its line, given the characters after it. -/
def breaksLine (c : Char) (rest : List Char) : Bool :=
  -- A carriage return before a line feed leaves the break to the line feed.
  c == '\n' || (c == '\r' && rest.head? != some '\n')

/-- The offsets right after every line break, for characters that begin at the given offset. -/
def lineStartsFrom (start : Nat) : List Char → List Nat
  | [] => []
  | c :: rest =>
    let next := start + c.utf8Size
    if breaksLine c rest then next :: lineStartsFrom next rest else lineStartsFrom next rest

/-- The line layout of a text. -/
def LineIndex.ofText (text : String) : LineIndex :=
  ⟨lineStartsFrom 0 text.toList, text.utf8ByteSize⟩

end Dxl
