import Dxl.Proofs.Text.Lines

/-! Line endings: a text that is written with another line ending has the same lines. -/

namespace Dxl

/-- What may stand at the end of a line instead of a line feed. -/
inductive LineEnding where
  /-- A carriage return and a line feed after it. -/
  | returnFeed
  /-- A carriage return alone. -/
  | returnOnly

namespace LineEnding

/-- The characters of a line ending. -/
def chars : LineEnding → List Char
  | .returnFeed => ['\r', '\n']
  | .returnOnly => ['\r']

/-- Characters in which every line feed is replaced. -/
def restyle (ending : LineEnding) (text : List Char) : List Char :=
  text.flatMap fun c => if c = '\n' then ending.chars else [c]

/-- A text in which every line feed is replaced. -/
def rewrite (ending : LineEnding) (text : String) : String :=
  String.ofList (ending.restyle text.toList)

variable (ending : LineEnding) {c : Char} {before after rest : List Char}

/-- Nothing is replaced where there is nothing. -/
@[simp] theorem restyle_nil : ending.restyle [] = [] := rfl

/-- Line feeds are replaced in each of two portions. -/
@[simp] theorem restyle_append : ending.restyle (before ++ after)
    = ending.restyle before ++ ending.restyle after :=
  List.flatMap_append

/-- A line feed is replaced. -/
@[simp] theorem restyle_lineFeed : ending.restyle ('\n' :: rest) = ending.chars ++ ending.restyle rest :=
  rfl

/-- Any other character stays. -/
theorem restyle_cons (other : c ≠ '\n') : ending.restyle (c :: rest) = c :: ending.restyle rest := by
  rw [restyle, List.flatMap_cons, if_neg other]
  rfl

/-- Characters stay as they are if there is no line feed among them. -/
theorem restyle_of_notMem (none : '\n' ∉ rest) : ending.restyle rest = rest := by
  -- The first character is no line feed, and neither is any other.
  induction rest with
  | nil => rfl
  | cons c rest ih =>
    rw [List.mem_cons, not_or] at none
    rw [ending.restyle_cons (Ne.symm none.1), ih none.2]

/-- Every line ending begins with a carriage return. -/
theorem exists_chars : ∃ tail, ending.chars = '\r' :: tail := by
  cases ending with
  | returnFeed => exact ⟨_, rfl⟩
  | returnOnly => exact ⟨_, rfl⟩

/-- No line feed stands first once all are replaced. -/
theorem head?_restyle (text : List Char) : (ending.restyle text).head? ≠ some '\n' := by
  -- The first line feed has become a carriage return, and any other first character has stayed.
  cases text with
  | nil => exact nofun
  | cons c rest =>
    by_cases isFeed : c = '\n'
    · obtain ⟨tail, same⟩ := ending.exists_chars
      rw [isFeed, restyle_lineFeed, same]
      simp
    · rw [ending.restyle_cons isFeed]
      simpa using isFeed

/-- Portions in which line feeds are replaced do not share a line break. -/
theorem apart_restyle (before after : List Char) :
    Apart (ending.restyle before) (ending.restyle after) :=
  fun _ => ending.head?_restyle after

/-- Reading a line ending leads to the next line. -/
theorem after_chars (position : Position) (next : rest.head? ≠ some '\n') :
    position.after (ending.chars ++ rest) = Position.after ⟨position.line + 1, 0⟩ rest := by
  -- After a carriage return alone, the break must not be left to a line feed behind it.
  cases ending with
  | returnFeed => simp [chars, Position.after, breaksLine]
  | returnOnly => simp [chars, Position.after, breaksLine, next]

/-- Reading leads to the same position whatever the line ending. -/
theorem after_restyle (plain : '\r' ∉ rest) (position : Position) :
    position.after (ending.restyle rest) = position.after rest := by
  -- A line feed and what replaces it both lead to the next line; there is no carriage return to
  -- differ in.
  induction rest generalizing position with
  | nil => rfl
  | cons c rest ih =>
    rw [List.mem_cons, not_or] at plain
    by_cases isFeed : c = '\n'
    · subst isFeed
      rw [restyle_lineFeed, after_chars _ _ (ending.head?_restyle rest), ih plain.2]
      simp [Position.after, breaksLine]
    · have stays (others : List Char) : breaksLine c others = false := by
        simp [breaksLine, isFeed, Ne.symm plain.1]
      rw [ending.restyle_cons isFeed, Position.after, Position.after, stays, stays]
      exact ih plain.2 _

/-- A text has as many lines with any line ending. -/
theorem lineCount_rewrite {text : String} (plain : '\r' ∉ text.toList) :
    (LineIndex.ofText (ending.rewrite text)).lineCount = (LineIndex.ofText text).lineCount := by
  rw [LineIndex.lineCount_ofText, LineIndex.lineCount_ofText, rewrite, String.toList_ofList,
    ending.after_restyle plain]

/-- Two offsets belong together if they are reached by reading the same characters. -/
def Meets (text : List Char) (offset other : Nat) : Prop :=
  ∃ before after, text = before ++ after ∧ offset = String.utf8Len before
    ∧ other = String.utf8Len (ending.restyle before)

/-- Offsets that belong together have the same position. -/
theorem Meets.position_eq {text : String} (plain : '\r' ∉ text.toList) {offset other : Nat}
    (meets : ending.Meets text.toList offset other) :
    (LineIndex.ofText (ending.rewrite text)).position other
      = (LineIndex.ofText text).position offset := by
  obtain ⟨before, after, split, rfl, rfl⟩ := meets
  -- The characters before the two offsets are the same but for their line feeds.
  have plainBefore : '\r' ∉ before := fun member => plain (by simp [split, member])
  have original : text = String.ofList (before ++ after) := by
    rw [← split, String.ofList_toList]
  rw [rewrite, split, restyle_append, original,
    LineIndex.position_ofText (ending.apart_restyle before after),
    LineIndex.position_ofText (.of_notMem plainBefore), ending.after_restyle plainBefore]

end LineEnding

end Dxl
