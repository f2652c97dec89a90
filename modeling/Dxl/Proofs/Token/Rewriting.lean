import Dxl.Proofs.Text.LineEnding
import Dxl.Proofs.Token.Partition

/-! Rewriting: lexemes reach as far into a text whatever its line ending. -/

namespace Dxl

/-- A sign that is found is spelled like the characters. -/
theorem Sign.spelling_of_ofSpelling? {chars : List Char} {sign : Sign}
    (found : Sign.ofSpelling? chars = some sign) : sign.spelling = chars :=
  beq_iff_eq.mp (List.find?_some (p := fun sign : Sign => sign.spelling == chars) found)

/-- The longest sign is spelled with the first of the characters. -/
theorem Sign.exists_spelling_of_longest? {chars : List Char} {sign : Sign}
    (found : Sign.longest? chars = some sign) : ∃ length, sign.spelling = chars.take length := by
  simp only [Sign.longest?, Option.orElse_eq_some] at found
  -- The three spellings that are tried are the first three, two and one characters.
  rcases found with three | ⟨-, two | ⟨-, one⟩⟩
  · exact ⟨3, Sign.spelling_of_ofSpelling? three⟩
  · exact ⟨2, Sign.spelling_of_ofSpelling? two⟩
  · exact ⟨1, Sign.spelling_of_ofSpelling? one⟩

/-- No sign is spelled with a part of a line ending. -/
theorem Sign.notMem_spelling (sign : Sign) : '\n' ∉ sign.spelling ∧ '\r' ∉ sign.spelling := by
  cases sign <;> decide

/-- A point after the first digits makes a number real. -/
theorem numberAfter_of_point {rest fraction : List Char}
    (point : rest.drop (runLength Char.isDigit rest) = '.' :: fraction) :
    numberAfter rest = (.real, runLength Char.isDigit rest + 1 + runLength Char.isDigit fraction
      + exponentLength (fraction.drop (runLength Char.isDigit fraction))) := by
  simp [numberAfter, point]

/-- Without a point a number is real if it has an exponent. -/
theorem numberAfter_of_no_point {rest : List Char}
    (none : ∀ fraction, rest.drop (runLength Char.isDigit rest) ≠ '.' :: fraction) :
    numberAfter rest
      = (if exponentLength (rest.drop (runLength Char.isDigit rest)) = 0 then .integer else .real,
        runLength Char.isDigit rest
          + exponentLength (rest.drop (runLength Char.isDigit rest))) := by
  unfold numberAfter
  dsimp only
  -- The digits are not followed by a point, so what decides is whether an exponent has any length.
  split
  · exact absurd ‹_› (none _)
  · split
    · rename_i same
      simp [same]
    · rename_i different
      rw [if_neg different]

/-- An exponent begins with its mark, of either letter case. -/
theorem exponentLength_cons (c : Char) (tail : List Char) :
    exponentLength (c :: tail)
      = if c = 'e' ∨ c = 'E' then 1 + runLength Char.isDigit tail else 0 := by
  unfold exponentLength
  split <;> simp_all

/-- A run of characters other than line feeds contains none. -/
theorem notMem_take_runLength {test : Char → Bool} (feed : test '\n' = false) (rest : List Char) :
    '\n' ∉ rest.take (runLength test rest) := by
  intro member
  -- A run is made of characters that pass the test, which a line feed does not.
  rw [runLength, ← List.prefix_iff_eq_take.mp (List.takeWhile_prefix test)] at member
  rw [List.mem_takeWhile_imp member] at feed
  cases feed

/-- A run is no longer than the characters that it is taken from. -/
theorem runLength_le (test : Char → Bool) (rest : List Char) : runLength test rest ≤ rest.length :=
  (List.takeWhile_prefix test).length_le

/-- Two portions without line feeds contain none together. -/
theorem notMem_take_add {rest : List Char} {first second : Nat} (none : '\n' ∉ rest.take first)
    (noneAfter : '\n' ∉ (rest.drop first).take second) : '\n' ∉ rest.take (first + second) := by
  rw [List.take_add, List.mem_append, not_or]
  exact ⟨none, noneAfter⟩

/-- A character with neither nothing nor something to escape is no backslash. -/
theorem ne_backslash {c : Char} {rest : List Char} (single : c = '\\' → rest = [] → False)
    (escaped : ∀ head tail, c = '\\' → rest = head :: tail → False) : c ≠ '\\' := by
  intro isBackslash
  cases rest with
  | nil => exact single isBackslash rfl
  | cons head tail => exact escaped head tail isBackslash rfl

/-- A character that escapes nothing ends a quoted text just if it is the quote. -/
theorem quotedLength_cons {quote c : Char} (escapes : c ≠ '\\') (rest : List Char) :
    quotedLength quote (c :: rest) = if c == quote then 1 else 1 + quotedLength quote rest := by
  rw [quotedLength]
  · exact fun isBackslash _ => escapes isBackslash
  · exact fun _ _ isBackslash _ => escapes isBackslash

/-- A character that is no star before a slash does not end a block comment. -/
theorem blockLength_cons {c : Char} {rest : List Char}
    (goesOn : ∀ tail, c = '*' → rest ≠ '/' :: tail) :
    blockLength (c :: rest) = 1 + blockLength rest := by
  rw [blockLength]
  exact fun tail isStar isSlash => goesOn tail isStar isSlash

/-- A star after a slash begins a block comment, and closes it only if a slash follows. -/
theorem commentAfterSlash?_star {rest : List Char} (goesOn : ∀ tail, rest ≠ '/' :: tail) :
    commentAfterSlash? ('*' :: rest) = some (1 + blockLength rest) := by
  rw [commentAfterSlash?]
  exact goesOn

/-- Only a slash or a star after a slash begins a comment. -/
theorem commentAfterSlash?_eq_none {rest : List Char} (noSlash : ∀ tail, rest ≠ '/' :: tail)
    (noStar : ∀ tail, rest ≠ '*' :: tail) : commentAfterSlash? rest = none := by
  unfold commentAfterSlash?
  split
  · exact absurd rfl (noSlash _)
  · exact absurd rfl (noStar _)
  · exact absurd rfl (noStar _)
  · rfl

namespace LineEnding

variable (ending : LineEnding) {rest : List Char} {test : Char → Bool} {c : Char} {length : Nat}

/-- A portion without line feeds is still there. -/
theorem take_restyle (none : '\n' ∉ rest.take length) :
    (ending.restyle rest).take length = rest.take length := by
  -- None of the characters that are taken is replaced.
  induction length generalizing rest with
  | zero => rfl
  | succ length ih =>
    cases rest with
    | nil => rfl
    | cons c rest =>
      rw [List.take_succ_cons, List.mem_cons, not_or] at none
      rw [ending.restyle_cons (Ne.symm none.1), List.take_succ_cons, List.take_succ_cons, ih none.2]

/-- A portion without line feeds is followed by what was after it. -/
theorem drop_restyle (none : '\n' ∉ rest.take length) :
    (ending.restyle rest).drop length = ending.restyle (rest.drop length) := by
  -- None of the characters that are dropped is replaced.
  induction length generalizing rest with
  | zero => rfl
  | succ length ih =>
    cases rest with
    | nil => rfl
    | cons c rest =>
      rw [List.take_succ_cons, List.mem_cons, not_or] at none
      rw [ending.restyle_cons (Ne.symm none.1), List.drop_succ_cons, List.drop_succ_cons, ih none.2]

/-- Where a line feed was, there is a carriage return. -/
theorem return_mem_take_restyle (feed : '\n' ∈ rest.take length) :
    '\r' ∈ (ending.restyle rest).take length := by
  -- The line feed is the first of the characters or among the others, which the induction covers.
  induction length generalizing rest with
  | zero => cases feed
  | succ length ih =>
    cases rest with
    | nil => cases feed
    | cons c rest =>
      by_cases isFeed : c = '\n'
      · obtain ⟨tail, same⟩ := ending.exists_chars
        rw [isFeed, restyle_lineFeed, same]
        exact List.mem_cons_self
      · rw [List.take_succ_cons, List.mem_cons] at feed
        rw [ending.restyle_cons isFeed, List.take_succ_cons, List.mem_cons]
        exact .inr (ih (feed.resolve_left (Ne.symm isFeed)))

/-- The first of some characters are as many once line feeds are replaced, each by its characters. -/
def Reaches (rest : List Char) (length other : Nat) : Prop :=
  other = (ending.restyle (rest.take length)).length

/-- A portion without line feeds reaches as far as before. -/
theorem reaches_of_notMem (none : '\n' ∉ rest.take length) (inside : length ≤ rest.length) :
    ending.Reaches rest length length := by
  rw [Reaches, ending.restyle_of_notMem none, List.length_take, Nat.min_eq_left inside]

/-- A character that is no line feed is one on both sides. -/
theorem Reaches.cons {other : Nat} (notFeed : c ≠ '\n') (reaches : ending.Reaches rest length other) :
    ending.Reaches (c :: rest) (1 + length) (1 + other) := by
  rw [Reaches, Nat.add_comm 1 length, List.take_succ_cons, ending.restyle_cons notFeed,
    List.length_cons, ← reaches, Nat.add_comm]

/-- What is reached are the characters with line feeds replaced, and so is what is left. -/
theorem Reaches.split {other : Nat} (reaches : ending.Reaches rest length other) :
    (ending.restyle rest).take other = ending.restyle (rest.take length)
      ∧ (ending.restyle rest).drop other = ending.restyle (rest.drop length) := by
  have parts : ending.restyle rest
      = ending.restyle (rest.take length) ++ ending.restyle (rest.drop length) := by
    rw [← restyle_append, List.take_append_drop]
  rw [parts, reaches]
  exact ⟨List.take_left, List.drop_left⟩

/-- A run of characters that are no part of line endings is as long as before. -/
theorem runLength_restyle (feed : test '\n' = false) (returned : test '\r' = false) (rest : List Char) :
    runLength test (ending.restyle rest) = runLength test rest := by
  -- A run that goes on to a line feed ends there, and what replaces that ends it as well.
  induction rest with
  | nil => rfl
  | cons c rest ih =>
    by_cases isFeed : c = '\n'
    · obtain ⟨tail, same⟩ := ending.exists_chars
      simp [isFeed, same, runLength, feed, returned]
    · rw [ending.restyle_cons isFeed]
      simp only [runLength] at ih
      cases passes : test c with
      | true => simp [runLength, passes, ih]
      | false => simp [runLength, passes]

/-- An exponent is as long as before, and contains no line feed. -/
theorem exponentLength_restyle (rest : List Char) :
    exponentLength (ending.restyle rest) = exponentLength rest
      ∧ '\n' ∉ rest.take (exponentLength rest) ∧ exponentLength rest ≤ rest.length := by
  cases rest with
  | nil => exact ⟨rfl, nofun, Nat.le_refl _⟩
  | cons c tail =>
    -- Without its mark there is no exponent, and no mark is put in by replacing a line feed.
    by_cases marks : c = 'e' ∨ c = 'E'
    · have other : c ≠ '\n' := by rintro rfl; revert marks; decide
      rw [ending.restyle_cons other, exponentLength_cons, exponentLength_cons, if_pos marks,
        if_pos marks,
        ending.runLength_restyle rfl rfl]
      refine ⟨rfl, notMem_take_add (by simpa using Ne.symm other) ?_, ?_⟩
      · exact notMem_take_runLength rfl tail
      · have := runLength_le Char.isDigit tail
        rw [List.length_cons]
        omega
    · have nothing : exponentLength (ending.restyle (c :: tail)) = 0 := by
        by_cases isFeed : c = '\n'
        · obtain ⟨after, same⟩ := ending.exists_chars
          rw [isFeed, restyle_lineFeed, same]
          rfl
        · rw [ending.restyle_cons isFeed, exponentLength_cons, if_neg marks]
      rw [nothing, exponentLength_cons, if_neg marks]
      exact ⟨rfl, nofun, Nat.zero_le _⟩

/-- A character that is no part of a line ending stands first just if it did before. -/
theorem restyle_eq_cons {tail : List Char} (notFeed : c ≠ '\n') (notReturn : c ≠ '\r') :
    ending.restyle rest = c :: tail
      ↔ ∃ others, rest = c :: others ∧ tail = ending.restyle others := by
  cases rest with
  | nil => simp
  -- A line feed that stands first becomes a carriage return, so it is none of the characters in
  -- question.
  | cons first others =>
    by_cases isFeed : first = '\n'
    · obtain ⟨after, same⟩ := ending.exists_chars
      rw [isFeed, restyle_lineFeed, same]
      simp [notFeed.symm, notReturn.symm]
    · rw [ending.restyle_cons isFeed]
      simp [and_assoc, eq_comm]

/-- A character that is no part of a line ending does not come to stand first. -/
theorem restyle_ne_cons (notFeed : c ≠ '\n') (notReturn : c ≠ '\r')
    (others : ∀ tail, rest ≠ c :: tail) (tail : List Char) : ending.restyle rest ≠ c :: tail := by
  intro begins
  obtain ⟨after, same, -⟩ := (ending.restyle_eq_cons notFeed notReturn).mp begins
  exact others after same

/-- A number is of the same shape and as long as before, and contains no line feed. -/
theorem numberAfter_restyle (rest : List Char) :
    numberAfter (ending.restyle rest) = numberAfter rest
      ∧ '\n' ∉ rest.take (numberAfter rest).2 ∧ (numberAfter rest).2 ≤ rest.length := by
  have none : '\n' ∉ rest.take (runLength Char.isDigit rest) := notMem_take_runLength rfl rest
  have low := runLength_le Char.isDigit rest
  have left : (rest.drop (runLength Char.isDigit rest)).length
      = rest.length - runLength Char.isDigit rest := List.length_drop
  have whole : runLength Char.isDigit (ending.restyle rest) = runLength Char.isDigit rest :=
    ending.runLength_restyle rfl rfl rest
  have after := ending.drop_restyle none
  -- The digits end at the same place in both texts, so a point follows them in both or in neither.
  by_cases point : ∃ fraction, rest.drop (runLength Char.isDigit rest) = '.' :: fraction
  · obtain ⟨fraction, point⟩ := point
    obtain ⟨exponent, noneThere, lowThere⟩ :=
      ending.exponentLength_restyle (fraction.drop (runLength Char.isDigit fraction))
    have noneBetween : '\n' ∉ fraction.take (runLength Char.isDigit fraction) :=
      notMem_take_runLength rfl fraction
    have pointAfter : (ending.restyle rest).drop (runLength Char.isDigit (ending.restyle rest))
        = '.' :: ending.restyle fraction := by
      rw [whole, after, point, ending.restyle_cons (by decide)]
    rw [numberAfter_of_point pointAfter, numberAfter_of_point point, whole,
      ending.runLength_restyle rfl rfl, ending.drop_restyle noneBetween, exponent]
    refine ⟨rfl, ?_, ?_⟩
    · rw [Nat.add_assoc, Nat.add_assoc]
      refine notMem_take_add none ?_
      rw [point]
      exact notMem_take_add (by simp) (notMem_take_add noneBetween noneThere)
    · have := runLength_le Char.isDigit fraction
      rw [point, List.length_cons] at left
      rw [List.length_drop] at lowThere
      dsimp only
      omega
  · rw [not_exists] at point
    obtain ⟨exponent, noneThere, lowThere⟩ :=
      ending.exponentLength_restyle (rest.drop (runLength Char.isDigit rest))
    have pointless (fraction : List Char) :
        (ending.restyle rest).drop (runLength Char.isDigit (ending.restyle rest))
          ≠ '.' :: fraction := by
      rw [whole, after]
      exact ending.restyle_ne_cons (by decide) (by decide) point fraction
    rw [numberAfter_of_no_point pointless, numberAfter_of_no_point point, whole, after, exponent]
    refine ⟨rfl, notMem_take_add none noneThere, ?_⟩
    dsimp only
    omega

/-- The sign with a spelling of some length is the same as before. -/
theorem ofSpelling?_restyle (other : c ≠ '\n') (length : Nat) :
    Sign.ofSpelling? ((c :: ending.restyle rest).take length)
      = Sign.ofSpelling? ((c :: rest).take length) := by
  rw [← ending.restyle_cons other]
  by_cases feed : '\n' ∈ (c :: rest).take length
  · -- Neither side is the spelling of a sign.
    have none (chars : List Char) (part : '\n' ∈ chars ∨ '\r' ∈ chars) :
        Sign.ofSpelling? chars = none := by
      refine Option.eq_none_iff_forall_ne_some.mpr fun sign found => ?_
      have spelled := Sign.spelling_of_ofSpelling? found
      rw [← spelled] at part
      exact part.elim sign.notMem_spelling.1 sign.notMem_spelling.2
    rw [none _ (.inl feed), none _ (.inr (ending.return_mem_take_restyle feed))]
  · rw [ending.take_restyle feed]

/-- A sign or an unknown character is the same as before, and contains no line feed. -/
theorem signOrUnknown_restyle (other : c ≠ '\n') (rest : List Char) :
    signOrUnknown c (ending.restyle rest) = signOrUnknown c rest
      ∧ '\n' ∉ rest.take (signOrUnknown c rest).2 ∧ (signOrUnknown c rest).2 ≤ rest.length := by
  -- All three candidates for a sign are the same as before.
  have same : signOrUnknown c (ending.restyle rest) = signOrUnknown c rest := by
    simp only [signOrUnknown, Sign.longest?, ending.ofSpelling?_restyle other]
  refine ⟨same, ?_⟩
  unfold signOrUnknown
  split
  · rename_i mark found
    -- The sign is spelled with the first of the characters.
    obtain ⟨length, spelled⟩ := Sign.exists_spelling_of_longest? found
    have plain := mark.notMem_spelling.1
    rw [spelled] at plain ⊢
    cases length with
    | zero => exact ⟨nofun, Nat.zero_le _⟩
    | succ length =>
      rw [List.take_succ_cons, List.mem_cons, not_or] at plain
      rw [List.take_succ_cons, List.length_cons, Nat.add_sub_cancel]
      dsimp only
      rw [← List.prefix_iff_eq_take.mp (List.take_prefix length rest)]
      exact ⟨plain.2, (List.take_prefix length rest).length_le⟩
  · exact ⟨nofun, Nat.zero_le _⟩

/-- A line ending is no quote and does not end a quoted text. -/
theorem quotedLength_chars {quote : Char} (notFeed : quote ≠ '\n') (notReturn : quote ≠ '\r')
    (rest : List Char) :
    quotedLength quote (ending.chars ++ rest) = ending.chars.length + quotedLength quote rest := by
  cases ending <;>
    simp [chars, quotedLength, beq_false_of_ne notFeed.symm, beq_false_of_ne notReturn.symm,
      ← Nat.add_assoc]

/-- A line ending after a backslash does not end a quoted text either. -/
theorem quotedLength_escaped_chars {quote : Char} (notFeed : quote ≠ '\n') (rest : List Char) :
    quotedLength quote ('\\' :: (ending.chars ++ rest))
      = 1 + ending.chars.length + quotedLength quote rest := by
  cases ending <;>
    simp [chars, quotedLength, beq_false_of_ne notFeed.symm, ← Nat.add_assoc]

/-- A quoted text reaches as far as before. -/
theorem quotedLength_restyle {quote : Char} (notFeed : quote ≠ '\n') (notReturn : quote ≠ '\r')
    (rest : List Char) :
    ending.Reaches rest (quotedLength quote rest) (quotedLength quote (ending.restyle rest)) := by
  -- The cases are those of the scan: the end, an escape, the closing quote, and any other
  -- character.
  unfold Reaches
  induction rest using quotedLength.induct quote with
  | case1 => rfl
  | case2 => rfl
  | case3 c rest ih =>
    have split : (('\\' :: c :: rest).take (2 + quotedLength quote rest))
        = '\\' :: c :: rest.take (quotedLength quote rest) := by
      rw [Nat.add_comm, List.take_succ_cons, List.take_succ_cons]
    by_cases isFeed : c = '\n'
    · -- The escape passes over the first character of the line ending, and the rest of it closes nothing.
      rw [quotedLength, split, isFeed, ending.restyle_cons (by decide), restyle_lineFeed,
        ending.quotedLength_escaped_chars notFeed, ih, ending.restyle_cons (by decide),
        restyle_lineFeed, List.length_cons, List.length_append]
      omega
    · -- An escaped character that is no line feed stays as it is.
      rw [quotedLength, split, ending.restyle_cons (by decide), ending.restyle_cons isFeed,
        quotedLength, ih, ending.restyle_cons (by decide), ending.restyle_cons isFeed,
        List.length_cons, List.length_cons]
      omega
  | case4 c rest single escaped closes =>
    obtain rfl : c = quote := beq_iff_eq.mp closes
    have escapes := ne_backslash single escaped
    rw [ending.restyle_cons notFeed, quotedLength_cons escapes, quotedLength_cons escapes,
      if_pos closes, if_pos closes, List.take_succ_cons, ending.restyle_cons notFeed]
    rfl
  | case5 c rest single escaped goesOn ih =>
    have escapes := ne_backslash single escaped
    rw [quotedLength_cons escapes, if_neg goesOn, Nat.add_comm 1, List.take_succ_cons]
    by_cases isFeed : c = '\n'
    · -- No character of a line ending closes the string or escapes another.
      rw [isFeed, restyle_lineFeed, restyle_lineFeed, ending.quotedLength_chars notFeed notReturn,
        ih, List.length_append]
    · rw [ending.restyle_cons isFeed, ending.restyle_cons isFeed, quotedLength_cons escapes,
        if_neg goesOn, ih, List.length_cons, Nat.add_comm]

/-- A line ending does not end a block comment. -/
theorem blockLength_chars (rest : List Char) :
    blockLength (ending.chars ++ rest) = ending.chars.length + blockLength rest := by
  -- A comment is closed only where a star stands.
  have passes {c : Char} (other : c ≠ '*') (rest : List Char) :
      blockLength (c :: rest) = 1 + blockLength rest :=
    blockLength_cons fun _ isStar => absurd isStar other
  cases ending with
  | returnFeed =>
    rw [chars, List.cons_append, passes (by decide), List.cons_append, passes (by decide),
      ← Nat.add_assoc]
    rfl
  | returnOnly =>
    rw [chars, List.cons_append, passes (by decide)]
    rfl

/-- A block comment reaches as far as before. -/
theorem blockLength_restyle (rest : List Char) :
    ending.Reaches rest (blockLength rest) (blockLength (ending.restyle rest)) := by
  -- The cases are those of the scan: the end, a star before a slash, and any other character.
  unfold Reaches
  induction rest using blockLength.induct with
  | case1 => rfl
  | case2 rest =>
    rw [ending.restyle_cons (by decide), ending.restyle_cons (by decide)]
    rfl
  | case3 c rest goesOn ih =>
    rw [blockLength_cons goesOn, Nat.add_comm, List.take_succ_cons]
    by_cases isFeed : c = '\n'
    · rw [isFeed, restyle_lineFeed, restyle_lineFeed, ending.blockLength_chars, ih,
        List.length_append]
    · -- A slash after a star would have been there before.
      have goesOnStill (tail : List Char) (isStar : c = '*') : ending.restyle rest ≠ '/' :: tail :=
        ending.restyle_ne_cons (by decide) (by decide) (fun other => goesOn other isStar) tail
      rw [ending.restyle_cons isFeed, ending.restyle_cons isFeed, blockLength_cons goesOnStill, ih,
        List.length_cons, Nat.add_comm]

/-- A slash begins a comment just if it did before, which reaches as far. -/
theorem commentAfterSlash?_restyle (rest : List Char) :
    (commentAfterSlash? rest = none ∧ commentAfterSlash? (ending.restyle rest) = none)
      ∨ ∃ length other, commentAfterSlash? rest = some length
        ∧ commentAfterSlash? (ending.restyle rest) = some other
        ∧ ending.Reaches rest length other := by
  -- What comes next decides between a line, a block and no comment at all, and none of it is a line
  -- feed.
  by_cases slash : ∃ line, rest = '/' :: line
  · obtain ⟨line, rfl⟩ := slash
    have none : '\n' ∉ line.take (runLength staysOnLine line) := notMem_take_runLength rfl line
    refine .inr ⟨_, _, rfl, by rw [ending.restyle_cons (by decide)]; rfl, .cons _ (by decide) ?_⟩
    rw [ending.runLength_restyle rfl rfl]
    exact ending.reaches_of_notMem none (runLength_le _ _)
  · rw [not_exists] at slash
    by_cases star : ∃ block, rest = '*' :: block
    · obtain ⟨block, rfl⟩ := star
      -- The star that opens the block closes it if a slash follows.
      by_cases closes : ∃ tail, block = '/' :: tail
      · obtain ⟨tail, rfl⟩ := closes
        refine .inr ⟨2, 2, rfl, ?_, ?_⟩
        · rw [ending.restyle_cons (by decide), ending.restyle_cons (by decide)]
          rfl
        · exact ending.reaches_of_notMem (by simp) (by simp)
      · rw [not_exists] at closes
        have goesOn := ending.restyle_ne_cons (by decide) (by decide) closes
        exact .inr ⟨_, _, commentAfterSlash?_star closes, by
          rw [ending.restyle_cons (by decide), commentAfterSlash?_star goesOn],
          .cons _ (by decide) (ending.blockLength_restyle block)⟩
    · rw [not_exists] at star
      exact .inl ⟨commentAfterSlash?_eq_none slash star, commentAfterSlash?_eq_none
        (ending.restyle_ne_cons (by decide) (by decide) slash)
        (ending.restyle_ne_cons (by decide) (by decide) star)⟩

/-- A lexeme is found again once line feeds are replaced, and only quoted texts and comments have line feeds in them. -/
structure Finds (rest : List Char) (found again : Lexeme × Nat) : Prop where
  shape : again.1 = found.1
  reaches : ending.Reaches rest found.2 again.2
  plain : '\n' ∈ rest.take found.2 → found.1 = .string ∨ found.1 = .comment

/-- A lexeme without line feeds is found again as it is. -/
theorem finds_of_notMem {found again : Lexeme × Nat} (same : again = found)
    (none : '\n' ∉ rest.take found.2) (inside : found.2 ≤ rest.length) :
    ending.Finds rest found again := by
  subst same
  exact ⟨rfl, ending.reaches_of_notMem none inside, fun feed => absurd feed none⟩

/-- A run of characters that are no part of line endings is found again. -/
theorem finds_run (shape : Lexeme) (feed : test '\n' = false) (returned : test '\r' = false)
    (rest : List Char) :
    ending.Finds rest (shape, runLength test rest)
      (shape, runLength test (ending.restyle rest)) :=
  ending.finds_of_notMem (by rw [ending.runLength_restyle feed returned])
    (notMem_take_runLength feed rest) (runLength_le test rest)

/-- What begins with a slash is found again. -/
theorem finds_slash (rest : List Char) :
    ending.Finds rest
      (match commentAfterSlash? rest with
        | some length => (.comment, length)
        | none => signOrUnknown '/' rest)
      (match commentAfterSlash? (ending.restyle rest) with
        | some length => (.comment, length)
        | none => signOrUnknown '/' (ending.restyle rest)) := by
  -- Where no comment begins, a sign does.
  rcases ending.commentAfterSlash?_restyle rest with
    ⟨none, noneAgain⟩ | ⟨length, other, some, someAgain, reaches⟩
  · rw [none, noneAgain]
    obtain ⟨same, plain, inside⟩ := ending.signOrUnknown_restyle (c := '/') (by decide) rest
    exact ending.finds_of_notMem same plain inside
  · rw [some, someAgain]
    exact ⟨rfl, reaches, fun _ => .inr rfl⟩

/-- The lexeme that begins with a character other than a line feed or a carriage return is found again. -/
theorem finds_lexemeAt (notFeed : c ≠ '\n') (notReturn : c ≠ '\r') (rest : List Char) :
    ending.Finds rest (lexemeAt c rest) (lexemeAt c (ending.restyle rest)) := by
  have feed : ¬(c == '\n') = true := by simpa using notFeed
  have returned : ¬(c == '\r') = true := by simpa using notReturn
  unfold lexemeAt
  simp only [if_neg feed, if_neg returned]
  -- The first character is the same in both texts, and it tells the shape.
  split_ifs with word digit directive quoted space tab slash
  · exact ending.finds_run .word rfl rfl rest
  · obtain ⟨same, plain, inside⟩ := ending.numberAfter_restyle rest
    exact ending.finds_of_notMem same plain inside
  · exact ending.finds_run .directive rfl rfl rest
  · exact ⟨rfl, ending.quotedLength_restyle notFeed notReturn rest, fun _ => .inl rfl⟩
  · exact ending.finds_run .spaces rfl rfl rest
  · exact ending.finds_run .tabs rfl rfl rest
  · rw [beq_iff_eq.mp slash]
    exact ending.finds_slash rest
  · obtain ⟨same, plain, inside⟩ := ending.signOrUnknown_restyle notFeed rest
    exact ending.finds_of_notMem same plain inside

end LineEnding

end Dxl
