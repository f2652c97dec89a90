import Dxl.Text.Quoted

/-! Quoting: a quoted text shows which text it is and where it ends, wherever it stands. -/

namespace Dxl

section

variable {α : Type} {write : α → List Char}

/-- What is written for an item shows which item it is and where it ends, whatever comes behind it. -/
def Delimits (write : α → List Char) (item : α) : Prop :=
  ∀ other rest further, write item ++ rest = write other ++ further → item = other ∧ rest = further

/-- What can be read back, whatever comes behind it, shows what it is and where it ends. -/
theorem delimits_of_read {read : List Char → Option (α × List Char)}
    (reads : ∀ item rest, read (write item ++ rest) = some (item, rest)) (item : α) :
    Delimits write item := by
  intro other rest further same
  -- Both readings start from the same characters, so they give the same.
  have found := (reads item rest).symm.trans ((congrArg read same).trans (reads other further))
  simpa using found

/-- Items one after the other show what they are and where they end if each of them does and none begins with the mark behind them. -/
theorem eq_of_flatMap_append {stop : Char}
    (begins : ∀ item, ∃ first tail, write item = first :: tail ∧ first ≠ stop)
    {items others : List α} (each : ∀ item ∈ items, Delimits write item) {rest further : List Char}
    (same : items.flatMap write ++ stop :: rest = others.flatMap write ++ stop :: further) :
    items = others ∧ rest = further := by
  -- The items are compared from the first on, and the mark tells where they end.
  induction items generalizing others with
  | nil =>
    cases others with
    | nil => exact ⟨rfl, (List.cons.inj same).2⟩
    | cons other others =>
      -- The mark would be the beginning of an item.
      obtain ⟨first, tail, written, distinct⟩ := begins other
      rw [List.flatMap_cons, written] at same
      exact absurd (List.cons.inj same).1.symm distinct
  | cons item items ih =>
    cases others with
    | nil =>
      -- The other way round, the mark would be the beginning of an item as well.
      obtain ⟨first, tail, written, distinct⟩ := begins item
      rw [List.flatMap_cons, written] at same
      exact absurd (List.cons.inj same).1 distinct
    | cons other others =>
      -- The first items are the same, so the induction goes on behind them.
      rw [List.flatMap_cons, List.flatMap_cons, List.append_assoc, List.append_assoc] at same
      obtain ⟨rfl, following⟩ := each item List.mem_cons_self _ _ _ same
      obtain ⟨rfl, behind⟩ :=
        ih (fun item member => each item (List.mem_cons_of_mem _ member)) following
      exact ⟨rfl, behind⟩

end

/-- The value of a hexadecimal digit. -/
def digitValue (digit : Char) : Nat :=
  if digit.isDigit then digit.toNat - '0'.toNat else digit.toNat - 'a'.toNat + 10

/-- The number that hexadecimal digits stand for. -/
def hexValue (digits : List Char) : Nat :=
  digits.foldl (fun number digit => 16 * number + digitValue digit) 0

/-- The last digit of a number is its remainder, and the others are those of its quotient. -/
theorem hexDigits_eq (n : Nat) :
    hexDigits n = if n < 16 then [n.digitChar] else hexDigits (n / 16) ++ [(n % 16).digitChar] :=
  Nat.toDigits_eq_if (by decide)

/-- Each digit stands for its value. -/
theorem digitValue_digitChar : ∀ n < 16, digitValue n.digitChar = n := by decide

/-- The digits of a number stand for it. -/
theorem hexValue_hexDigits (n : Nat) : hexValue (hexDigits n) = n := by
  -- The digits before the last one stand for the quotient, which is smaller.
  induction n using Nat.strongRecOn with
  | ind n ih =>
    -- A number below sixteen is its only digit.
    rw [hexDigits_eq]
    split
    · rename_i small
      simp [hexValue, digitValue_digitChar n small]
    · have quotient : hexValue (hexDigits (n / 16)) = n / 16 := ih (n / 16) (by omega)
      rw [hexValue] at quotient ⊢
      rw [List.foldl_append, quotient, List.foldl_cons, List.foldl_nil,
        digitValue_digitChar (n % 16) (by omega)]
      omega

/-- No digit is a brace. -/
theorem ne_brace_of_mem_hexDigits {n : Nat} {digit : Char} (member : digit ∈ hexDigits n) :
    digit ≠ '}' := by
  have each : ∀ n < 16, Nat.digitChar n ≠ '}' := by decide
  -- A digit is the last one or one of those of the quotient.
  induction n using Nat.strongRecOn with
  | ind n ih =>
    rw [hexDigits_eq] at member
    split at member
    · rename_i small
      rw [List.mem_singleton.mp member]
      exact each n small
    · rcases List.mem_append.mp member with earlier | last
      · exact ih (n / 16) (by omega) earlier
      · rw [List.mem_singleton.mp last]
        exact each (n % 16) (by omega)

/-- The character that a letter after a backslash stands for. -/
def unescaped : Char → Char
  | 'n' => '\n'
  | 'r' => '\r'
  | 't' => '\t'
  | '0' => '\x00'
  | c => c

/-- Reads the first character of a text inside of quotes. -/
def readChar : List Char → Option (Char × List Char)
  | [] => none
  | '\\' :: 'u' :: rest =>
    -- The digits stand between braces.
    some (Char.ofNat (hexValue ((rest.drop 1).takeWhile (· != '}'))),
      ((rest.drop 1).dropWhile (· != '}')).drop 1)
  | '\\' :: letter :: rest => some (unescaped letter, rest)
  | c :: rest => some (c, rest)

variable {isHidden : Char → Bool}

/-- A character that is written inside of quotes can be read back. -/
theorem readChar_escapeChar (c : Char) (rest : List Char) :
    readChar (escapeChar isHidden c ++ rest) = some (c, rest) := by
  -- The cases are those of the characters with an escape, and the last one is that of all others.
  unfold escapeChar
  split
  case h_7 =>
    split
    · -- The digits end at the brace, which is none of them.
      have digits : ∀ digit ∈ hexDigits c.toNat, (digit != '}') = true := fun digit member => by
        simpa using ne_brace_of_mem_hexDigits member
      have written : ['\\', 'u', '{'] ++ hexDigits c.toNat ++ ['}'] ++ rest
          = '\\' :: 'u' :: '{' :: (hexDigits c.toNat ++ '}' :: rest) := by simp
      rw [written, readChar, List.drop_one, List.tail_cons,
        List.takeWhile_append_of_pos digits, List.dropWhile_append_of_pos digits]
      simp [hexValue_hexDigits, Char.ofNat_toNat]
    · -- A character without an escape is no backslash.
      rw [List.singleton_append]
      unfold readChar
      split <;> simp_all
  all_goals rfl

/-- No character is written with a quote mark at the beginning. -/
theorem exists_escapeChar (c : Char) :
    ∃ first tail, escapeChar isHidden c = first :: tail ∧ first ≠ '"' := by
  unfold escapeChar
  -- Escapes begin with a backslash, and the only quote mark has an escape.
  split
  case h_7 noQuote _ _ _ _ _ =>
    split
    · exact ⟨_, _, rfl, by decide⟩
    · exact ⟨c, [], rfl, noQuote⟩
  all_goals exact ⟨_, _, rfl, by decide⟩

/-- A quoted text is its characters between quote marks. -/
theorem toList_quote (text : String) :
    (quote text isHidden).toList
      = '"' :: (text.toList.flatMap (escapeChar isHidden) ++ ['"']) := by
  rw [quote, String.toList_ofList, List.cons_append]

/-- A quoted text shows which text it is and where it ends. -/
theorem delimits_quote (text : String) :
    Delimits (fun text => (quote text isHidden).toList) text := by
  intro other rest further same
  simp only [toList_quote, List.cons_append, List.append_assoc, List.nil_append, List.cons.injEq,
    true_and] at same
  -- Only the closing mark is a quote mark that nothing comes before.
  obtain ⟨chars, behind⟩ := eq_of_flatMap_append exists_escapeChar
    (fun c _ => delimits_of_read readChar_escapeChar c) same
  exact ⟨String.toList_inj.mp chars, behind⟩

end Dxl
