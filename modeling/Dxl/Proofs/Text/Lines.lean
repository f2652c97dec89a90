import Mathlib
import Dxl.Lines

/-! Lines: the position of an offset is what reading the characters before it leads to. -/

namespace Dxl

open String

/-- The position that is reached from a given one by reading some characters. -/
def Position.after (position : Position) : List Char → Position
  | [] => position
  | c :: rest =>
    if breaksLine c rest then Position.after ⟨position.line + 1, 0⟩ rest
    else Position.after ⟨position.line, position.column + c.utf8Size⟩ rest

/-- A line break is not split between two portions of characters. -/
def Apart (before after : List Char) : Prop :=
  before.getLast? = some '\r' → after.head? ≠ some '\n'

/-- A portion without carriage returns ends apart from any other. -/
theorem Apart.of_notMem {before after : List Char} (plain : '\r' ∉ before) : Apart before after :=
  fun last => absurd (List.mem_of_getLast? last) plain

/-- Whether a line ends at a character does not depend on what comes after a portion that ends apart. -/
theorem breaksLine_append {c : Char} {rest after : List Char} (apart : Apart (c :: rest) after) :
    breaksLine c (rest ++ after) = breaksLine c rest := by
  -- Only the last character of the portion looks at what comes after it, and only if it is a
  -- carriage return.
  cases rest with
  | nil =>
    by_cases isReturn : c = '\r'
    · subst isReturn
      have other : after.head? ≠ some '\n' := apart rfl
      simp [breaksLine, bne_iff_ne.mpr other]
    · simp [breaksLine, beq_false_of_ne isReturn]
  | cons next rest => rfl

/-- What is left of a portion that ends apart does so as well. -/
theorem Apart.tail {c : Char} {rest after : List Char} (apart : Apart (c :: rest) after) :
    Apart rest after := by
  intro last
  refine apart ?_
  rw [List.getLast?_cons, last]
  rfl

/-- Two portions end apart from what comes after them if each does from what comes after it. -/
theorem Apart.append {before middle after : List Char} (first : Apart before (middle ++ after))
    (second : Apart middle after) : Apart (before ++ middle) after := by
  intro last
  -- What ends the two portions is what ends the second one, unless that is empty.
  cases middle using List.reverseRecOn with
  | nil => exact first (by simpa using last)
  | append_singleton front c => exact second (by simpa using last)

/-- The lines of two portions begin where those of each portion do. -/
theorem lineStartsFrom_append {before after : List Char} (apart : Apart before after) (start : Nat) :
    lineStartsFrom start (before ++ after)
      = lineStartsFrom start before ++ lineStartsFrom (start + utf8Len before) after := by
  -- The offset moves on with every character, so it differs from one step to the next.
  induction before generalizing start with
  | nil => rfl
  | cons c rest ih =>
    rw [List.cons_append, lineStartsFrom, lineStartsFrom, breaksLine_append apart, ih apart.tail,
      utf8Len_cons, ← Nat.add_assoc, Nat.add_right_comm]
    split <;> rfl

/-- Reading two portions is reading the first one and then the second one. -/
theorem Position.after_append {before after : List Char} (apart : Apart before after)
    (position : Position) : position.after (before ++ after) = (position.after before).after after := by
  -- The position moves on with every character, so it differs from one step to the next.
  induction before generalizing position with
  | nil => rfl
  | cons c rest ih =>
    rw [List.cons_append, Position.after, Position.after, breaksLine_append apart]
    split <;> exact ih apart.tail _

/-- Lines begin after the first of the characters and not after the last of them. -/
theorem range_of_mem_lineStartsFrom {start offset : Nat} {chars : List Char}
    (member : offset ∈ lineStartsFrom start chars) :
    start < offset ∧ offset ≤ start + utf8Len chars := by
  -- A line begins right after the first character or later on.
  induction chars generalizing start with
  | nil => cases member
  | cons c rest ih =>
    have wide := c.utf8Size_pos
    rw [lineStartsFrom] at member
    rw [utf8Len_cons]
    split at member
    · rcases List.mem_cons.mp member with rfl | further
      · omega
      · have := ih further
        omega
    · have := ih member
      omega

/-- Reading leads to a line for every break, and to a column that counts from the last of them. -/
theorem Position.after_eq (position : Position) {start : Nat} (chars : List Char)
    (inside : position.column ≤ start) :
    position.after chars
      = ⟨position.line + (lineStartsFrom start chars).length,
        start + utf8Len chars
          - (lineStartsFrom start chars).getLastD (start - position.column)⟩ := by
  -- A break resets the column, and any other character moves the column and the offset on alike.
  induction chars generalizing position start with
  | nil =>
    obtain ⟨line, column⟩ := position
    simp only [Position.after, lineStartsFrom, List.length_nil, List.getLastD_nil, utf8Len_nil,
      Position.mk.injEq] at inside ⊢
    omega
  | cons c rest ih =>
    rw [Position.after, lineStartsFrom, utf8Len_cons]
    split
    · rw [ih ⟨position.line + 1, 0⟩ (Nat.zero_le (start + c.utf8Size)), List.length_cons,
        List.getLastD_cons, Nat.sub_zero]
      simp only [Position.mk.injEq]
      omega
    · have stays : position.column + c.utf8Size ≤ start + c.utf8Size := by omega
      rw [ih ⟨position.line, position.column + c.utf8Size⟩ stays, Nat.add_sub_add_right]
      simp only [Position.mk.injEq, true_and]
      omega

namespace LineIndex

/-- A text has one line more than breaks. -/
theorem lineCount_ofText (text : String) :
    (ofText text).lineCount = (Position.after ⟨0, 0⟩ text.toList).line + 1 := by
  rw [Position.after_eq ⟨0, 0⟩ text.toList (Nat.le_refl 0), Nat.zero_add]
  rfl

/-- The position of an offset is what reading the characters before it leads to. -/
theorem position_ofText {before after : List Char} (apart : Apart before after) :
    (ofText (String.ofList (before ++ after))).position (utf8Len before)
      = Position.after ⟨0, 0⟩ before := by
  have starts : (ofText (String.ofList (before ++ after))).laterStarts
      = lineStartsFrom 0 before ++ lineStartsFrom (utf8Len before) after := by
    rw [ofText, String.toList_ofList, lineStartsFrom_append apart, Nat.zero_add]
  have within : min (utf8Len before) (ofText (String.ofList (before ++ after))).length
      = utf8Len before := by
    rw [ofText, String.utf8ByteSize_ofList, utf8Len_append]
    exact Nat.min_eq_left (Nat.le_add_right _ _)
  -- The lines that begin up to the offset are those of the characters before it.
  have passed : (lineStartsFrom 0 before ++ lineStartsFrom (utf8Len before) after).takeWhile
      (· ≤ utf8Len before) = lineStartsFrom 0 before := by
    rw [List.takeWhile_append_of_pos fun offset member => ?_]
    · have none : (lineStartsFrom (utf8Len before) after).takeWhile (· ≤ utf8Len before) = [] := by
        refine List.takeWhile_eq_nil_iff.mpr fun found => ?_
        have := (range_of_mem_lineStartsFrom (List.getElem_mem found)).1
        simpa using this
      rw [none, List.append_nil]
    · have := (range_of_mem_lineStartsFrom member).2
      rw [Nat.zero_add] at this
      simpa using this
  -- The start of the current line is the last of those that were passed, or zero.
  have last : (0 :: (lineStartsFrom 0 before ++ lineStartsFrom (utf8Len before) after)).getD
      (lineStartsFrom 0 before).length 0 = (lineStartsFrom 0 before).getLastD 0 := by
    generalize lineStartsFrom 0 before = passed
    cases passed using List.reverseRecOn with
    | nil => rfl
    | append_singleton front offset => simp
  rw [position, starts, within, passed, LineIndex.starts, starts, last,
    Position.after_eq ⟨0, 0⟩ before (Nat.le_refl 0)]
  simp

end LineIndex

end Dxl
