import Dxl.Proofs.Text.Positions
import Dxl.Proofs.View.Reach

/-! Encoding: highlights that are encoded relative to each other can be placed again by adding up. -/

namespace Dxl

namespace Highlight

/-- How much of a highlight is on its first line, unless that takes a number from a smaller one. -/
def lengthOnLine? (highlight : Highlight) (lines : LineIndex) : Option Nat :=
  let start := lines.position highlight.start
  let stop := lines.position highlight.stop
  if stop.line == start.line then subtract? stop.column start.column
  else subtract? (lines.offset ⟨start.line + 1, 0⟩) highlight.start

/-- A highlight relative to a position before it, unless that takes a number from a smaller one; the highlight is left out if one of its numbers cannot be held. -/
def checkedRelative? (highlight : Highlight) (lines : LineIndex) (previous : Position) :
    Option (Option RelativeHighlight) := do
  let start := lines.position highlight.start
  let length ← highlight.lengthOnLine? lines
  let deltaStart ←
    if start.line == previous.line then subtract? start.column previous.column
    else some start.column
  let deltaLine ← subtract? start.line previous.line
  return if deltaLine ≤ largestDelta && deltaStart ≤ largestDelta && length ≤ largestDelta then
    some ⟨deltaLine, deltaStart, length, highlight.kind.ordinal⟩
  else none

/-- Where a highlight ends on the line on which it starts. -/
def stopOnLine (highlight : Highlight) (lines : LineIndex) : Nat :=
  min highlight.stop (lines.lineEnd (lines.position highlight.start).line)

end Highlight

/-- Highlights relative to each other, the first of them to the given position, unless that takes a number from a smaller one. -/
def encodeCheckedFrom? (lines : LineIndex) (previous : Position) :
    List Highlight → Option (List RelativeHighlight)
  | [] => some []
  | highlight :: rest => do
    match ← highlight.checkedRelative? lines previous with
    | some relative =>
      return relative :: (← encodeCheckedFrom? lines (lines.position highlight.start) rest)
    | none => encodeCheckedFrom? lines previous rest

/-- All highlights relative to each other, unless that takes a number from a smaller one. -/
def Highlights.encodeChecked? (highlights : Highlights) (lines : LineIndex) :
    Option (List RelativeHighlight) :=
  encodeCheckedFrom? lines (lines.position 0) highlights.tokens

/-- The position that a relative highlight stands for, given the one before it. -/
def RelativeHighlight.position (relative : RelativeHighlight) (previous : Position) : Position :=
  ⟨previous.line + relative.deltaLine,
    if relative.deltaLine = 0 then previous.column + relative.deltaStart else relative.deltaStart⟩

/-- Where a highlight begins, how long it is, and the number of its kind. -/
structure PlacedHighlight where
  position : Position
  length : Nat
  kind : Nat
deriving DecidableEq

/-- The highlights that others relative to each other stand for, the first of them relative to the given position. -/
def decodeFrom (previous : Position) : List RelativeHighlight → List PlacedHighlight
  | [] => []
  | relative :: rest =>
    ⟨relative.position previous, relative.length, relative.kind⟩
      :: decodeFrom (relative.position previous) rest

/-- The highlights that others relative to each other stand for. -/
def decode (encoded : List RelativeHighlight) : List PlacedHighlight :=
  decodeFrom ⟨0, 0⟩ encoded

/-- Where a highlight is on the lines of a text, as far as its first line. -/
def Highlight.placed (highlight : Highlight) (lines : LineIndex) : PlacedHighlight :=
  ⟨lines.position highlight.start, highlight.stopOnLine lines - highlight.start,
    highlight.kind.ordinal⟩

/-- A highlight covers something, and lies within a text that is short enough. -/
structure Highlight.Fits (highlight : Highlight) (lines : LineIndex) : Prop where
  nonempty : highlight.start < highlight.stop
  inside : highlight.stop ≤ lines.length
  short : lines.length ≤ largestDelta

namespace Highlight.Fits

variable {highlight : Highlight} {lines : LineIndex}

/-- A highlight that starts in the text ends after its start, on the line on which it starts. -/
theorem start_lt_stopOnLine (fits : highlight.Fits lines) :
    highlight.start < highlight.stopOnLine lines :=
  Nat.lt_min.mpr ⟨fits.nonempty,
    LineIndex.lt_lineEnd (Nat.lt_of_lt_of_le fits.nonempty fits.inside)⟩

/-- The part of a highlight on its first line ends where the highlight or the line does. -/
theorem lengthOnLine?_eq (fits : highlight.Fits lines) (ordered : lines.Ordered) :
    highlight.lengthOnLine? lines = some (highlight.stopOnLine lines - highlight.start)
      ∧ highlight.lengthOnLine lines = highlight.stopOnLine lines - highlight.start := by
  have before := Nat.le_of_lt fits.nonempty
  have ahead := ordered.line_mono before fits.inside
  rw [lengthOnLine?, lengthOnLine]
  by_cases same : (lines.position highlight.stop).line = (lines.position highlight.start).line
  · -- The end of the line lies after the highlight, which is as long as its columns are apart.
    have columns := LineIndex.Ordered.column_add before fits.inside same
    have ends := LineIndex.le_lineEnd fits.inside
    rw [same] at ends
    have stops : highlight.stopOnLine lines = highlight.stop := Nat.min_eq_left ends
    simp only [same, beq_self_eq_true, if_true, stops]
    rw [subtract?_of_le (by omega), columns, Nat.add_sub_cancel_left]
    exact ⟨rfl, rfl⟩
  · -- The end of the line lies within the highlight, and the next line begins there.
    have further := Nat.lt_of_le_of_ne ahead (Ne.symm same)
    have ends := Nat.le_trans (ordered.lineEnd_le_lineStart further (lines.line_lt _))
      (LineIndex.lineStart_le fits.inside)
    have stops : highlight.stopOnLine lines
        = lines.lineEnd (lines.position highlight.start).line := Nat.min_eq_right ends
    have begins := ordered.offset_lineStart (Nat.lt_of_le_of_lt further (lines.line_lt _))
    have onward := fits.start_lt_stopOnLine
    rw [stops] at onward
    simp only [beq_eq_false_iff_ne.mpr same, Bool.false_eq_true, if_false, begins, stops, and_true]
    exact subtract?_of_le (Nat.le_of_lt onward)

/-- A highlight is encoded relative to the position of an offset before it without any number being taken from a smaller one, and is placed again from there. -/
theorem exists_relative (fits : highlight.Fits lines) (ordered : lines.Ordered) {offset : Nat}
    (before : offset ≤ highlight.start) :
    ∃ relative, highlight.checkedRelative? lines (lines.position offset) = some (some relative)
      ∧ highlight.relative? lines (lines.position offset) = some relative
      ∧ relative.position (lines.position offset) = lines.position highlight.start
      ∧ relative.length = highlight.stopOnLine lines - highlight.start
      ∧ relative.kind = highlight.kind.ordinal := by
  have inside : highlight.start ≤ lines.length :=
    Nat.le_trans (Nat.le_of_lt fits.nonempty) fits.inside
  have ahead := ordered.line_mono before inside
  have bounds := ordered.position_le inside
  obtain ⟨checked, length⟩ := fits.lengthOnLine?_eq ordered
  -- In a text that is short enough the length fits into its number.
  have short : highlight.stopOnLine lines - highlight.start ≤ largestDelta := by
    have := fits.short
    have := fits.inside
    have : highlight.stopOnLine lines ≤ highlight.stop := Nat.min_le_left _ _
    omega
  have := fits.short
  rw [checkedRelative?, relative?, checked, length, subtract?_of_le ahead]
  generalize highlight.stopOnLine lines - highlight.start = length at short
  -- On the line of the offset, the column is counted from there.
  by_cases same : (lines.position highlight.start).line = (lines.position offset).line
  · have columns := LineIndex.Ordered.column_add before inside same
    have column : (lines.position highlight.start).column - (lines.position offset).column
        ≤ largestDelta := by omega
    refine ⟨⟨0, (lines.position highlight.start).column - (lines.position offset).column, length,
      highlight.kind.ordinal⟩, ?_, ?_, ?_, rfl, rfl⟩
    · simp [same, subtract?_of_le (show (lines.position offset).column
        ≤ (lines.position highlight.start).column by omega), column, short]
    · simp [same, column, short]
    · simp only [RelativeHighlight.position, if_true, ← same, Nat.add_zero]
      rw [Nat.add_sub_cancel' (by omega)]
  · -- On a later line, the column is counted from the start of that line.
    have line : (lines.position highlight.start).line - (lines.position offset).line
        ≤ largestDelta := by omega
    have column : (lines.position highlight.start).column ≤ largestDelta := by omega
    have further : (lines.position highlight.start).line - (lines.position offset).line ≠ 0 := by
      omega
    refine ⟨⟨(lines.position highlight.start).line - (lines.position offset).line,
      (lines.position highlight.start).column, length, highlight.kind.ordinal⟩, ?_, ?_, ?_, rfl,
      rfl⟩
    · simp [same, line, column, short]
    · simp [same, line, column, short]
    · simp only [RelativeHighlight.position, if_neg further]
      rw [Nat.add_sub_cancel' ahead]

end Highlight.Fits

/-- Highlights that start one after the other are encoded without any number being taken from a smaller one, and are placed again where they were. -/
theorem encodeFrom_decodes {lines : LineIndex} (ordered : lines.Ordered)
    {highlights : List Highlight} (fit : ∀ highlight ∈ highlights, highlight.Fits lines)
    (sorted : highlights.Pairwise fun left right => left.start ≤ right.start) {offset : Nat}
    (before : ∀ highlight ∈ highlights, offset ≤ highlight.start) :
    encodeCheckedFrom? lines (lines.position offset) highlights
        = some (encodeFrom lines (lines.position offset) highlights)
      ∧ decodeFrom (lines.position offset) (encodeFrom lines (lines.position offset) highlights)
        = highlights.map (·.placed lines) := by
  induction sorted generalizing offset with
  | nil => exact ⟨rfl, rfl⟩
  | @cons highlight rest first _ ih =>
    obtain ⟨relative, checked, found, placed, length, kind⟩ :=
      (fit highlight (by simp)).exists_relative ordered (before highlight (by simp))
    -- Each highlight is relative to the start of the one before it, so the rest goes on from this
    -- one.
    obtain ⟨encoded, decoded⟩ := ih (fun other member => fit other (by simp [member])) first
    constructor
    · simp [encodeCheckedFrom?, encodeFrom, checked, found, encoded]
    · rw [encodeFrom, found]
      simp only [decodeFrom, placed, decoded, List.map_cons, Highlight.placed, length, kind]

end Dxl
