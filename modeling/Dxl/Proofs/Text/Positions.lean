import Dxl.Proofs.Text.Lines

/-! Positions: the line of an offset begins at or before it and ends after it, and positions follow each other as offsets do. -/

namespace Dxl

/-- What is left of a number when another one is taken from it, unless that one is larger. -/
def subtract? (number amount : Nat) : Option Nat :=
  if amount ≤ number then some (number - amount) else none

/-- A number can be taken from one that is not smaller. -/
theorem subtract?_of_le {number amount : Nat} (enough : amount ≤ number) :
    subtract? number amount = some (number - amount) :=
  if_pos enough

/-- The first member that ends a run fails its test. -/
theorem not_of_getElem?_length_takeWhile {α : Type} {test : α → Bool} {list : List α} {item : α}
    (found : list[(list.takeWhile test).length]? = some item) : test item = false := by
  -- The run goes on in the rest of the list, or the first member has ended it already.
  induction list with
  | nil => cases found
  | cons first rest ih =>
    by_cases passes : test first = true
    · rw [List.takeWhile_cons_of_pos passes] at found
      exact ih (by simpa using found)
    · rw [List.takeWhile_cons_of_neg passes] at found
      cases found
      simpa using passes

namespace LineIndex

/-- Lines begin one after the other, and none of them after the end of the text. -/
structure Ordered (index : LineIndex) : Prop where
  increasing : index.starts.Pairwise (· < ·)
  inside : ∀ start ∈ index.starts, start ≤ index.length

/-- Where a line begins. -/
def lineStart (index : LineIndex) (line : Nat) : Nat :=
  index.starts.getD line 0

/-- Lines begin one after the other as far as they were looked for. -/
theorem pairwise_lineStartsFrom (start : Nat) (chars : List Char) :
    (lineStartsFrom start chars).Pairwise (· < ·) := by
  -- What begins in the rest of the characters begins after the first of them.
  induction chars generalizing start with
  | nil => exact .nil
  | cons c rest ih =>
    rw [lineStartsFrom]
    split
    · exact .cons (fun later member => (range_of_mem_lineStartsFrom member).1) (ih _)
    · exact ih _

/-- The lines of a text begin one after the other. -/
theorem ordered_ofText (text : String) : (ofText text).Ordered where
  increasing := .cons (fun _ member => (range_of_mem_lineStartsFrom member).1)
    (pairwise_lineStartsFrom 0 _)
  inside start member := by
    -- The first line begins at zero, and the others begin within the characters.
    rcases List.mem_cons.mp member with rfl | later
    · exact Nat.zero_le _
    · have bound := (range_of_mem_lineStartsFrom later).2
      rwa [Nat.zero_add, ← String.utf8ByteSize_ofList, String.ofList_toList] at bound

variable {index : LineIndex} {offset later line other : Nat}

/-- A line that exists begins at a member of the list. -/
theorem lineStart_eq (exists_ : line < index.starts.length) :
    index.lineStart line = index.starts[line] := by
  simp [lineStart, exists_]

/-- A line that exists begins where the list says. -/
theorem getElem?_starts (exists_ : line < index.lineCount) :
    index.starts[line]? = some (index.lineStart line) := by
  rw [lineStart_eq exists_]
  exact List.getElem?_eq_getElem exists_

/-- A line that is not the last one ends where the next one begins. -/
theorem lineEnd_eq (exists_ : line + 1 < index.lineCount) :
    index.lineEnd line = index.lineStart (line + 1) := by
  rw [lineEnd, List.getD_eq_getElem?_getD, getElem?_starts exists_]
  rfl

/-- The line of an offset exists. -/
theorem line_lt (index : LineIndex) (offset : Nat) :
    (index.position offset).line < index.lineCount := by
  -- The lines that are passed are among the later ones, of which there is one less than lines.
  rw [position, lineCount, starts, List.length_cons, Nat.lt_succ_iff]
  exact (List.takeWhile_prefix _).length_le

/-- The line of an offset begins at or before it. -/
theorem lineStart_le (within : offset ≤ index.length) :
    index.lineStart (index.position offset).line ≤ offset := by
  rw [position, Nat.min_eq_left within, lineStart, starts]
  cases passed : (index.laterStarts.takeWhile (· ≤ offset)).length with
  | zero => exact Nat.zero_le _
  | succ n =>
    -- The last line that begins before the offset was passed on the way to it.
    have bound : n < (index.laterStarts.takeWhile (· ≤ offset)).length := by omega
    have holds := List.all_eq_true.mp List.all_takeWhile _ (List.getElem_mem bound)
    rw [List.getD_cons_succ, ← List.takeWhile_append_dropWhile (p := (· ≤ offset)) (l := index.laterStarts),
      List.getD_eq_getElem?_getD, List.getElem?_append_left bound, List.getElem?_eq_getElem bound]
    simpa using holds

/-- An offset lies before the line after its own. -/
theorem lt_of_starts? {next : Nat} (within : offset ≤ index.length)
    (found : index.starts[(index.position offset).line + 1]? = some next) : offset < next := by
  rw [position, Nat.min_eq_left within, starts, List.getElem?_cons_succ] at found
  simpa using not_of_getElem?_length_takeWhile found

/-- An offset lies before the end of its line, or where that and the text end. -/
theorem le_lineEnd (within : offset ≤ index.length) :
    offset ≤ index.lineEnd (index.position offset).line := by
  rw [lineEnd, List.getD_eq_getElem?_getD]
  -- The last line ends with the text, and any other where the next one begins.
  cases found : index.starts[(index.position offset).line + 1]? with
  | none => exact within
  | some next => exact Nat.le_of_lt (lt_of_starts? within found)

/-- An offset inside of the text lies before the end of its line. -/
theorem lt_lineEnd (within : offset < index.length) :
    offset < index.lineEnd (index.position offset).line := by
  rw [lineEnd, List.getD_eq_getElem?_getD]
  cases found : index.starts[(index.position offset).line + 1]? with
  | none => exact within
  | some next => exact lt_of_starts? (Nat.le_of_lt within) found

/-- The column of an offset counts from the start of its line. -/
theorem lineStart_add_column (within : offset ≤ index.length) :
    index.lineStart (index.position offset).line + (index.position offset).column = offset := by
  have column : (index.position offset).column
      = offset - index.lineStart (index.position offset).line := by
    rw [position, Nat.min_eq_left within, lineStart]
  rw [column, Nat.add_sub_cancel' (lineStart_le within)]

namespace Ordered

/-- A later line begins later. -/
theorem lineStart_lt (ordered : index.Ordered) (before : line < other)
    (exists_ : other < index.lineCount) : index.lineStart line < index.lineStart other := by
  rw [lineStart_eq (Nat.lt_trans before exists_), lineStart_eq exists_]
  exact List.pairwise_iff_getElem.mp ordered.increasing _ _ _ _ before

/-- A line ends no later than any line after it begins. -/
theorem lineEnd_le_lineStart (ordered : index.Ordered) (before : line < other)
    (exists_ : other < index.lineCount) : index.lineEnd line ≤ index.lineStart other := by
  rw [lineEnd_eq (Nat.lt_of_le_of_lt before exists_)]
  -- The other line is the next one or comes after that.
  rcases Nat.eq_or_lt_of_le (show line + 1 ≤ other from before) with rfl | further
  · exact Nat.le_refl _
  · exact Nat.le_of_lt (ordered.lineStart_lt further exists_)

/-- A line begins no later than it ends. -/
theorem lineStart_le_lineEnd (ordered : index.Ordered) (exists_ : line < index.lineCount) :
    index.lineStart line ≤ index.lineEnd line := by
  by_cases last : line + 1 < index.lineCount
  · -- The next line begins later.
    rw [lineEnd_eq last]
    exact Nat.le_of_lt (ordered.lineStart_lt (Nat.lt_succ_self line) last)
  · -- The last line ends with the text, and no line begins after that.
    rw [lineEnd, List.getD_eq_getElem?_getD, List.getElem?_eq_none (Nat.le_of_not_lt last)]
    exact ordered.inside _ (List.mem_of_getElem? (getElem?_starts exists_))

/-- There are no more lines before another than characters. -/
theorem line_le_lineStart (ordered : index.Ordered) (exists_ : line < index.lineCount) :
    line ≤ index.lineStart line := by
  -- Every line begins after the one before it, so the starts grow at least as fast as the numbers.
  induction line with
  | zero => exact Nat.zero_le _
  | succ n ih =>
    have step : index.lineStart n < index.lineStart (n + 1) :=
      ordered.lineStart_lt (Nat.lt_succ_self n) exists_
    have := ih (Nat.lt_of_succ_lt exists_)
    omega

/-- Neither number of a position exceeds the offset. -/
theorem position_le (ordered : index.Ordered) (within : offset ≤ index.length) :
    (index.position offset).line ≤ offset ∧ (index.position offset).column ≤ offset := by
  -- The offset is the start of its line and the column together.
  have line := ordered.line_le_lineStart (index.line_lt offset)
  have column := lineStart_add_column within
  omega

/-- The text begins at the start of the first line. -/
theorem position_zero (ordered : index.Ordered) : index.position 0 = ⟨0, 0⟩ := by
  obtain ⟨line, column⟩ := ordered.position_le (Nat.zero_le index.length)
  rw [Position.mk.injEq]
  exact ⟨Nat.le_zero.mp line, Nat.le_zero.mp column⟩

/-- A later offset is on the same line or on a later one. -/
theorem line_mono (ordered : index.Ordered) (before : offset ≤ later) (within : later ≤ index.length) :
    (index.position offset).line ≤ (index.position later).line := by
  by_contra back
  -- The line of the later offset would end before that of the earlier one begins.
  have ends := ordered.lineEnd_le_lineStart (Nat.lt_of_not_le back) (index.line_lt offset)
  have begins := lineStart_le (Nat.le_trans before within)
  have := le_lineEnd within
  have same : later = offset := by omega
  exact back (same ▸ Nat.le_refl _)

/-- On one line, columns are as far apart as offsets. -/
theorem column_add (before : offset ≤ later) (within : later ≤ index.length)
    (same : (index.position later).line = (index.position offset).line) :
    (index.position later).column = (index.position offset).column + (later - offset) := by
  -- Both columns count from the same start.
  have first := lineStart_add_column (Nat.le_trans before within)
  have second := lineStart_add_column within
  rw [same] at second
  omega

/-- The offset at which a line begins that is not the first is where the line before it ends. -/
theorem offset_lineStart (ordered : index.Ordered) (exists_ : line + 1 < index.lineCount) :
    index.offset ⟨line + 1, 0⟩ = index.lineEnd line := by
  rw [lineEnd_eq exists_, offset, getElem?_starts exists_]
  -- A line begins before it ends, so nothing is cut off.
  exact Nat.min_eq_left (ordered.lineStart_le_lineEnd exists_)

end Ordered

end LineIndex

end Dxl
