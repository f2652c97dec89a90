import Dxl.Proofs.Text.Positions

/-! Conversion: offsets and positions are turned into each other without loss and without changing their order. -/

namespace Dxl

/-- A position comes before another one on an earlier line, or further left on the same line. -/
def Position.Precedes (position later : Position) : Prop :=
  position.line < later.line ∨ position.line = later.line ∧ position.column < later.column

namespace LineIndex

/-- The line and column of an offset, unless that takes a number from a smaller one or asks for a line that does not exist. -/
def positionChecked? (index : LineIndex) (offset : Nat) : Option Position := do
  -- The line is the one before the first that begins after the offset.
  let inside := min offset index.length
  let line ← subtract? (index.starts.findIdx (inside < ·)) 1
  let start ← index.starts[line]?
  let column ← subtract? inside start
  return ⟨line, column⟩

/-- A position lies on a line of the text, before the next line or up to the end of the last one. -/
structure Covers (index : LineIndex) (position : Position) : Prop where
  exists_ : position.line < index.lineCount
  beforeNext : ∀ next, index.starts[position.line + 1]? = some next →
    index.lineStart position.line + position.column < next
  upToEnd : index.starts[position.line + 1]? = none →
    index.lineStart position.line + position.column ≤ index.length

variable {index : LineIndex} {offset later line other : Nat} {position next : Position}

/-- An offset past the end counts as the end. -/
theorem position_min (index : LineIndex) (offset : Nat) :
    index.position (min offset index.length) = index.position offset := by
  rw [LineIndex.position, LineIndex.position, Nat.min_eq_left (Nat.min_le_right _ _)]

/-- The line of an offset is found without taking a number from a smaller one, and so is its column. -/
theorem positionChecked?_eq (index : LineIndex) (offset : Nat) :
    index.positionChecked? offset = some (index.position offset) := by
  -- The first line begins at zero, so that the first one after the offset comes later.
  have found : index.starts.findIdx (min offset index.length < ·)
      = (index.position offset).line + 1 := by
    -- A run is as long as the number of the first member that does not belong to it.
    have run : (index.laterStarts.takeWhile (· ≤ min offset index.length)).length
        = index.laterStarts.findIdx (fun start => !decide (start ≤ min offset index.length)) := by
      rw [List.takeWhile_eq_take_findIdx_not, List.length_take,
        Nat.min_eq_left List.findIdx_le_length]
    simp only [starts, LineIndex.position, run, List.findIdx_cons, Nat.not_lt_zero, decide_false,
      cond_false, ← decide_not, Nat.not_le]
  -- The line exists and begins at or before the offset, so neither step can fail.
  have start := getElem?_starts (index.line_lt offset)
  have before := lineStart_le (Nat.min_le_right offset index.length)
  rw [position_min] at before
  simp only [positionChecked?, found, subtract?_of_le (Nat.le_add_left _ _), Nat.add_sub_cancel,
    Option.bind_eq_bind, Option.bind_some, start, subtract?_of_le before]
  rfl

/-- Turning an offset into a position and back gives the offset, or the end. -/
theorem offset_position (index : LineIndex) (offset : Nat) :
    index.offset (index.position offset) = min offset index.length := by
  have within := Nat.min_le_right offset index.length
  have column := lineStart_add_column within
  have ends := le_lineEnd within
  rw [position_min] at column ends
  -- The offset lies before the end of its line, so that nothing is cut off.
  rw [LineIndex.offset, getElem?_starts (index.line_lt offset)]
  simp only [column]
  exact Nat.min_eq_left ends

namespace Ordered

/-- No line ends after the text. -/
theorem lineEnd_le (ordered : index.Ordered) (line : Nat) : index.lineEnd line ≤ index.length := by
  -- A line ends where another one begins, or with the text.
  rw [lineEnd, List.getD_eq_getElem?_getD]
  cases found : index.starts[line + 1]? with
  | none => exact Nat.le_refl _
  | some start => exact ordered.inside start (List.mem_of_getElem? found)

/-- A later offset has a later position. -/
theorem position_precedes (ordered : index.Ordered) (before : offset < later)
    (within : later ≤ index.length) :
    (index.position offset).Precedes (index.position later) := by
  have ahead := ordered.line_mono (Nat.le_of_lt before) within
  by_cases same : (index.position later).line = (index.position offset).line
  · -- On one line, the columns are as far apart as the offsets.
    have columns := column_add (Nat.le_of_lt before) within same
    right
    exact ⟨same.symm, by omega⟩
  · -- The line of the later offset is not above that of the earlier one.
    left
    omega

/-- An offset is on the line that begins at or before it, if the next one begins after it. -/
theorem line_eq (ordered : index.Ordered) (within : offset ≤ index.length)
    (exists_ : line < index.lineCount) (begins : index.lineStart line ≤ offset)
    (beforeNext : ∀ next, index.starts[line + 1]? = some next → offset < next) :
    (index.position offset).line = line := by
  apply Nat.le_antisymm
  · -- A later line would begin after the offset.
    by_contra after
    have bound := Nat.lt_of_not_le after
    have real : line + 1 < index.lineCount := Nat.lt_of_le_of_lt bound (index.line_lt offset)
    have early := beforeNext _ (getElem?_starts real)
    have ends := ordered.lineEnd_le_lineStart bound (index.line_lt offset)
    rw [lineEnd_eq real] at ends
    have start := lineStart_le within
    omega
  · -- An earlier line would end before the offset.
    by_contra before
    have bound := Nat.lt_of_not_le before
    have real : (index.position offset).line + 1 < index.lineCount :=
      Nat.lt_of_le_of_lt bound exists_
    have early := lt_of_starts? within (getElem?_starts real)
    have ends := ordered.lineEnd_le_lineStart bound exists_
    rw [lineEnd_eq real] at ends
    omega

/-- Turning a position on a line of the text into an offset and back gives the position. -/
theorem position_offset (ordered : index.Ordered) (covers : index.Covers position) :
    index.position (index.offset position) = position := by
  have start := getElem?_starts covers.exists_
  -- The column does not go beyond the line, so that nothing is cut off.
  have inLine : index.lineStart position.line + position.column ≤ index.lineEnd position.line := by
    rw [lineEnd, List.getD_eq_getElem?_getD]
    cases found : index.starts[position.line + 1]? with
    | none => exact covers.upToEnd found
    | some next => exact Nat.le_of_lt (covers.beforeNext next found)
  have reached : index.offset position = index.lineStart position.line + position.column := by
    rw [LineIndex.offset, start]
    exact Nat.min_eq_left inLine
  -- The offset lies on the line of the position, so its column is what is left after the start.
  have within := Nat.le_trans inLine (ordered.lineEnd_le position.line)
  have line := ordered.line_eq within covers.exists_ (Nat.le_add_right _ _) covers.beforeNext
  have column := lineStart_add_column within
  rw [reached, Position.mk.injEq]
  rw [line] at column
  exact ⟨line, Nat.add_left_cancel column⟩

/-- A position is turned into an offset in the text. -/
theorem offset_le (ordered : index.Ordered) (position : Position) :
    index.offset position ≤ index.length := by
  rw [LineIndex.offset]
  -- What lies beyond its line is cut off at the end of the line, which is in the text.
  cases index.starts[position.line]? with
  | none => exact Nat.le_refl _
  | some start => exact Nat.le_trans (Nat.min_le_right _ _) (ordered.lineEnd_le position.line)

/-- A later position is not turned into an earlier offset. -/
theorem offset_mono (ordered : index.Ordered) (before : position.Precedes next) :
    index.offset position ≤ index.offset next := by
  by_cases exists_ : next.line < index.lineCount
  · have real : position.line < index.lineCount := by
      rcases before with above | ⟨same, -⟩ <;> omega
    rw [LineIndex.offset, LineIndex.offset, getElem?_starts exists_, getElem?_starts real]
    rcases before with above | ⟨same, left⟩
    · -- The earlier line ends before the later one begins.
      have ends := ordered.lineEnd_le_lineStart above exists_
      have begins := ordered.lineStart_le_lineEnd exists_
      dsimp only
      omega
    · -- On one line the columns are compared, and both are cut off at the same place.
      rw [same]
      dsimp only
      omega
  · -- A line that does not exist is taken for the end of the text.
    have past : index.offset next = index.length := by
      rw [LineIndex.offset, List.getElem?_eq_none (Nat.le_of_not_lt exists_)]
    rw [past]
    exact ordered.offset_le position

end Ordered

/-- Offsets of a text and positions are turned into each other. An offset is found again, up to the end, and no number is taken from a smaller one on the way; later offsets have later positions; a position on a line of the text is found again; and any position, also beside the text, stands for an offset in the text, and a later one for no earlier offset. -/
theorem ofText_converts (text : String) :
    let lines := ofText text
    (∀ offset, lines.positionChecked? offset = some (lines.position offset)
        ∧ lines.offset (lines.position offset) = min offset text.utf8ByteSize)
      ∧ (∀ offset later, offset < later → later ≤ text.utf8ByteSize →
        (lines.position offset).Precedes (lines.position later))
      ∧ (∀ position, lines.Covers position → lines.position (lines.offset position) = position)
      ∧ ∀ position, lines.offset position ≤ text.utf8ByteSize
        ∧ ∀ next, position.Precedes next → lines.offset position ≤ lines.offset next := by
  intro lines
  have ordered := ordered_ofText text
  refine ⟨?_, ?_, ?_, ?_⟩
  · intro offset
    exact ⟨lines.positionChecked?_eq offset, lines.offset_position offset⟩
  · intro offset later before within
    exact ordered.position_precedes before within
  · intro position covers
    exact ordered.position_offset covers
  · intro position
    exact ⟨ordered.offset_le position, fun next before => ordered.offset_mono before⟩

/-- The offset past the end is found at the end, a position after a character of two bytes is found again, and a column beyond its line stands for the start of the next one. -/
theorem ofText_converts_clamped :
    (ofText "é\r\nb\n").positionChecked? 100 = some ⟨2, 0⟩
      ∧ ((ofText "é\r\nb\n").position 3).Precedes ((ofText "é\r\nb\n").position 6)
      ∧ (ofText "é\r\nb\n").Covers ⟨0, 3⟩
      ∧ (ofText "é\r\nb\n").position ((ofText "é\r\nb\n").offset ⟨0, 3⟩) = ⟨0, 3⟩
      ∧ (ofText "é\r\nb\n").offset ⟨0, 9⟩ = 4
      ∧ (ofText "é\r\nb\n").offset ⟨0, 9⟩ ≤ (ofText "é\r\nb\n").offset ⟨7, 0⟩ := by
  have starts : (ofText "é\r\nb\n").starts = [0, 4, 6] := by decide +kernel
  have last : (ofText "é\r\nb\n").position 100 = ⟨2, 0⟩ := by decide +kernel
  have covers : (ofText "é\r\nb\n").Covers ⟨0, 3⟩ := by
    -- The first line is not the last one, so only the start of the next line bounds the column.
    refine ⟨by decide +kernel, fun next found => ?_, fun none => ?_⟩
    · simp only [starts, Nat.zero_add, List.getElem?_cons_succ, List.getElem?_cons_zero,
        Option.some.injEq] at found
      simp [← found, lineStart, starts]
    · simp [starts] at none
  obtain ⟨found, ordered, back, kept⟩ := ofText_converts "é\r\nb\n"
  exact ⟨(found 100).1.trans (congrArg some last),
    ordered 3 6 (by decide) (by decide +kernel), covers, back _ covers, by decide +kernel,
    (kept ⟨0, 9⟩).2 ⟨7, 0⟩ (.inl (by decide))⟩

end LineIndex

end Dxl
