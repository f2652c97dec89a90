import Dxl.Proofs.Text.Positions
import Dxl.Proofs.Token.Rewriting

/-! Tokens on lines: the lines of a text begin where its line breaks end, or within its strings and comments. -/

namespace Dxl

open String

/-- Tokens with which a line ends. -/
def TokenKind.endsLine : TokenKind → Bool
  | .softBreak | .hardBreak => true
  | _ => false

/-- Tokens that may go on over several lines. -/
def TokenKind.spansLines : TokenKind → Bool
  | .string | .comment => true
  | _ => false

/-- How the characters of a token lie on the lines of a text, given the characters after them. -/
inductive TokenKind.Lies : TokenKind → List Char → List Char → Prop
  /-- A line break is a line feed, a carriage return, or both of them together. -/
  | ends {kind : TokenKind} {taken after : List Char} (isBreak : kind.endsLine = true)
      (written : taken = ['\n'] ∨ taken = ['\r'] ∨ taken = ['\r', '\n'])
      (apart : Apart taken after) : Lies kind taken after
  /-- A token over several lines does not end with a line, unless nothing comes after it. -/
  | spans {kind : TokenKind} {taken after : List Char} (noBreak : kind.endsLine = false)
      (mayBreak : kind.spansLines = true)
      (closes : after = [] ∨ ∃ last, taken.getLast? = some last ∧ staysOnLine last = true) :
      Lies kind taken after
  /-- Any other token is on one line. -/
  | stays {kind : TokenKind} {taken after : List Char} (noBreak : kind.endsLine = false)
      (plain : taken.all staysOnLine = true) : Lies kind taken after

/-- Only a line break becomes a token with which a line ends. -/
theorem Lexeme.endsLine_kind (lexeme : Lexeme) (text : String) (continued : Bool) :
    (lexeme.kind text continued).endsLine = (lexeme == .lineBreak) := by
  cases lexeme with
  | word | directive =>
    -- A word is reserved or a name.
    simp only [Lexeme.kind]
    split <;> rfl
  | lineBreak => cases continued <;> rfl
  | _ => rfl

/-- Characters stay on their line if neither of the two that can end it is among them. -/
theorem all_staysOnLine_iff {chars : List Char} :
    chars.all staysOnLine = true ↔ '\n' ∉ chars ∧ '\r' ∉ chars := by
  induction chars with
  | nil => simp
  | cons c rest ih =>
    simp only [List.all_cons, Bool.and_eq_true, ih, staysOnLine, bne_iff_ne, List.mem_cons, not_or]
    constructor
    · intro plain
      exact ⟨⟨Ne.symm plain.1.1, plain.2.1⟩, Ne.symm plain.1.2, plain.2.2⟩
    · intro plain
      exact ⟨⟨Ne.symm plain.1.1, Ne.symm plain.2.1⟩, plain.1.2, plain.2.2⟩

/-- No line ends at a character that stays on its line. -/
theorem breaksLine_of_staysOnLine {c : Char} (stays : staysOnLine c = true) (rest : List Char) :
    breaksLine c rest = false := by
  -- The character is neither of the two that can end a line.
  simp only [staysOnLine, Bool.and_eq_true, bne_iff_ne] at stays
  simp [breaksLine, stays.1, stays.2]

/-- No line begins after characters that stay on their line. -/
theorem lineStartsFrom_of_all {chars : List Char} (plain : chars.all staysOnLine = true)
    (start : Nat) : lineStartsFrom start chars = [] := by
  induction chars generalizing start with
  | nil => rfl
  | cons c rest ih =>
    rw [List.all_cons, Bool.and_eq_true] at plain
    rw [lineStartsFrom, breaksLine_of_staysOnLine plain.1]
    exact ih plain.2 _

/-- Reading characters that stay on their line moves on by as many columns as they have bytes. -/
theorem Position.after_of_all {chars : List Char} (plain : chars.all staysOnLine = true)
    (position : Position) :
    position.after chars = ⟨position.line, position.column + utf8Len chars⟩ := by
  induction chars generalizing position with
  | nil => rfl
  | cons c rest ih =>
    rw [List.all_cons, Bool.and_eq_true] at plain
    rw [Position.after, breaksLine_of_staysOnLine plain.1, if_neg Bool.false_ne_true, ih plain.2,
      utf8Len_cons, Nat.add_assoc, Nat.add_comm c.utf8Size]

/-- Nothing ends apart from whatever comes after it. -/
theorem Apart.nil (after : List Char) : Apart [] after := nofun

/-- What ends apart from two portions together does so from the first of them. -/
theorem Apart.of_append {before middle after : List Char} (apart : Apart before (middle ++ after)) :
    Apart before middle := by
  intro last begins
  refine apart last ?_
  rw [List.head?_append, begins]
  rfl

/-- Characters whose last one stays on its line end apart from whatever comes after them. -/
theorem Apart.of_getLast? {chars after : List Char} {last : Char}
    (ends : chars.getLast? = some last) (stays : staysOnLine last = true) : Apart chars after := by
  -- The last character is no carriage return.
  intro isReturn
  rw [ends, Option.some.injEq] at isReturn
  rw [isReturn] at stays
  cases stays

/-- No line begins right after characters whose last one stays on its line. -/
theorem stop_notMem_lineStartsFrom {chars : List Char} {last : Char}
    (ends : chars.getLast? = some last) (stays : staysOnLine last = true) (start : Nat) :
    start + utf8Len chars ∉ lineStartsFrom start chars := by
  intro begins
  -- The lines before the last character begin no later than it does, and none begins after it.
  obtain ⟨front, rfl⟩ := List.getLast?_eq_some_iff.mp ends
  have single : [last].all staysOnLine = true := by rw [List.all_cons, stays]; rfl
  have apart : Apart front [last] := by
    intro _ isFeed
    rw [List.head?_cons, Option.some.injEq] at isFeed
    rw [isFeed] at stays
    cases stays
  rw [lineStartsFrom_append apart, lineStartsFrom_of_all single, List.append_nil] at begins
  have bound := (range_of_mem_lineStartsFrom begins).2
  have wide := last.utf8Size_pos
  rw [utf8Len_append, utf8Len_cons] at bound
  omega

namespace TokenKind.Lies

variable {kind : TokenKind} {taken after : List Char}

/-- The characters of a token end apart from those after them. -/
theorem apart (lies : kind.Lies taken after) : Apart taken after := by
  cases lies with
  | ends _ _ apart => exact apart
  | spans _ _ closes =>
    rcases closes with rfl | ⟨last, ends, stays⟩
    · -- Nothing comes after them.
      exact fun _ => nofun
    · exact .of_getLast? ends stays
  | stays _ plain => exact .of_notMem (all_staysOnLine_iff.mp plain).2

/-- A line begins where a line break ends. -/
theorem lineStartsFrom_eq (lies : kind.Lies taken after) (isBreak : kind.endsLine = true)
    (start : Nat) : lineStartsFrom start taken = [start + utf8Len taken] := by
  cases lies with
  | ends _ written _ =>
    -- However it is written, a line break ends one line.
    rcases written with rfl | rfl | rfl <;> rfl
  | spans noBreak _ _ | stays noBreak _ => exact absurd (isBreak.symm.trans noBreak) nofun

/-- Reading a line break leads to the start of the next line. -/
theorem after_eq (lies : kind.Lies taken after) (isBreak : kind.endsLine = true)
    (position : Position) : position.after taken = ⟨position.line + 1, 0⟩ := by
  cases lies with
  | ends _ written _ => rcases written with rfl | rfl | rfl <;> rfl
  | spans noBreak _ _ | stays noBreak _ => exact absurd (isBreak.symm.trans noBreak) nofun

/-- A token that neither ends a line nor may span several is on one line. -/
theorem all_staysOnLine (lies : kind.Lies taken after) (noBreak : kind.endsLine = false)
    (noSpan : kind.spansLines = false) : taken.all staysOnLine = true := by
  cases lies with
  | ends isBreak _ _ => exact absurd (isBreak.symm.trans noBreak) nofun
  | spans _ mayBreak _ => exact absurd (mayBreak.symm.trans noSpan) nofun
  | stays _ plain => exact plain

/-- A line that begins where a token ends does so after a line break, or where nothing comes after the token. -/
theorem eq_nil_of_stop_mem (lies : kind.Lies taken after) (noBreak : kind.endsLine = false)
    {start : Nat} (begins : start + utf8Len taken ∈ lineStartsFrom start taken) : after = [] := by
  -- Only a break, which is excluded, ends a line; a token over several lines ends inside of its
  -- last one.
  cases lies with
  | ends isBreak _ _ => exact absurd (isBreak.symm.trans noBreak) nofun
  | spans _ _ closes =>
    rcases closes with nothing | ⟨last, ends, stays⟩
    · exact nothing
    · exact absurd begins (stop_notMem_lineStartsFrom ends stays start)
  | stays _ plain =>
    rw [lineStartsFrom_of_all plain] at begins
    cases begins

end TokenKind.Lies

/-- A run of characters that are no part of a line break stays on its line. -/
theorem all_take_runLength {test : Char → Bool} (feed : test '\n' = false)
    (returned : test '\r' = false) (rest : List Char) :
    (rest.take (runLength test rest)).all staysOnLine = true := by
  rw [runLength, ← List.prefix_iff_eq_take.mp (List.takeWhile_prefix test), all_staysOnLine_iff]
  -- Every character of the run passes the test, which neither line feed nor carriage return does.
  constructor
  · intro member
    rw [List.mem_takeWhile_imp member] at feed
    cases feed
  · intro member
    rw [List.mem_takeWhile_imp member] at returned
    cases returned

/-- Two portions that stay on their line do so together. -/
theorem all_take_add {rest : List Char} {first second : Nat}
    (plain : (rest.take first).all staysOnLine = true)
    (plainAfter : ((rest.drop first).take second).all staysOnLine = true) :
    (rest.take (first + second)).all staysOnLine = true := by
  rw [List.take_add, List.all_append, plain, plainAfter]
  rfl

/-- An exponent stays on its line. -/
theorem all_take_exponentLength (rest : List Char) :
    (rest.take (exponentLength rest)).all staysOnLine = true := by
  cases rest with
  | nil => rfl
  | cons c tail =>
    rw [exponentLength_cons]
    split
    · -- The mark is a letter, and digits follow it.
      rename_i marks
      have mark : staysOnLine c = true := by rcases marks with rfl | rfl <;> rfl
      rw [Nat.add_comm, List.take_succ_cons, List.all_cons, mark, all_take_runLength rfl rfl]
      rfl
    · rfl

/-- A number is no line break and stays on its line. -/
theorem numberAfter_stays (rest : List Char) :
    (numberAfter rest).1 ≠ .lineBreak ∧ (rest.take (numberAfter rest).2).all staysOnLine = true := by
  have whole : (rest.take (runLength Char.isDigit rest)).all staysOnLine = true :=
    all_take_runLength rfl rfl rest
  by_cases point : ∃ fraction, rest.drop (runLength Char.isDigit rest) = '.' :: fraction
  · obtain ⟨fraction, point⟩ := point
    rw [numberAfter_of_point point, Nat.add_assoc, Nat.add_assoc]
    -- The digits are followed by the point, the fraction and the exponent.
    refine ⟨nofun, all_take_add whole ?_⟩
    rw [point]
    apply all_take_add (by rfl)
    exact all_take_add (all_take_runLength rfl rfl fraction) (all_take_exponentLength _)
  · rw [numberAfter_of_no_point (not_exists.mp point)]
    constructor
    · dsimp only
      split <;> exact nofun
    · exact all_take_add whole (all_take_exponentLength _)

/-- A sign or an unknown character is no line break and stays on its line. -/
theorem signOrUnknown_stays {c : Char} (stays : staysOnLine c = true) (rest : List Char) :
    (signOrUnknown c rest).1 ≠ .lineBreak
      ∧ (c :: rest.take (signOrUnknown c rest).2).all staysOnLine = true := by
  unfold signOrUnknown
  split
  · rename_i mark found
    refine ⟨nofun, ?_⟩
    -- The sign is spelled with the first characters, and with no part of a line break.
    obtain ⟨length, spelled⟩ := Sign.exists_spelling_of_longest? found
    have plain := all_staysOnLine_iff.mpr mark.notMem_spelling
    cases length with
    | zero => simpa [spelled] using stays
    | succ length =>
      rw [List.take_succ_cons] at spelled
      rw [spelled] at plain ⊢
      rw [List.length_cons, Nat.add_sub_cancel,
        ← List.prefix_iff_eq_take.mp (List.take_prefix length rest)]
      exact plain
  · rw [List.take_zero, List.all_cons, stays]
    exact ⟨nofun, rfl⟩

/-- A quoted text ends with its quote, or with the characters. -/
theorem drop_quotedLength (quote : Char) (rest : List Char) :
    rest.drop (quotedLength quote rest) = []
      ∨ (rest.take (quotedLength quote rest)).getLast? = some quote := by
  -- A backslash takes the next character with it, so a quote right after it does not count as the
  -- last one.
  induction rest using quotedLength.induct quote with
  | case1 => exact .inl rfl
  | case2 => exact .inl rfl
  | case3 c rest ih =>
    rw [quotedLength, Nat.add_comm, List.drop_succ_cons, List.drop_succ_cons, List.take_succ_cons,
      List.take_succ_cons]
    rcases ih with nothing | ends
    · exact .inl nothing
    · exact .inr (by rw [List.getLast?_cons, List.getLast?_cons, ends]; rfl)
  | case4 c rest single escaped closes =>
    rw [quotedLength_cons (ne_backslash single escaped), if_pos closes]
    exact .inr (by rw [beq_iff_eq.mp closes]; rfl)
  | case5 c rest single escaped goesOn ih =>
    rw [quotedLength_cons (ne_backslash single escaped), if_neg goesOn, Nat.add_comm,
      List.drop_succ_cons, List.take_succ_cons]
    rcases ih with nothing | ends
    · exact .inl nothing
    · exact .inr (by rw [List.getLast?_cons, ends]; rfl)

/-- A block comment ends with a slash, or with the characters. -/
theorem drop_blockLength (rest : List Char) :
    rest.drop (blockLength rest) = []
      ∨ (rest.take (blockLength rest)).getLast? = some '/' := by
  induction rest using blockLength.induct with
  | case1 => exact .inl rfl
  | case2 rest => exact .inr rfl
  | case3 c rest goesOn ih =>
    rw [blockLength_cons goesOn, Nat.add_comm, List.drop_succ_cons, List.take_succ_cons]
    rcases ih with nothing | ends
    · exact .inl nothing
    · exact .inr (by rw [List.getLast?_cons, ends]; rfl)

/-- A lexeme other than a line break may stay on its line. -/
theorem Lexeme.lies_of_all {lexeme : Lexeme} {taken after : List Char} (other : lexeme ≠ .lineBreak)
    (plain : taken.all staysOnLine = true) (text : String) (continued : Bool) :
    (lexeme.kind text continued).Lies taken after := by
  have noBreak := lexeme.endsLine_kind text continued
  rw [beq_eq_false_iff_ne.mpr other] at noBreak
  exact .stays noBreak plain

/-- What begins with a carriage return lies on lines as a line break. -/
theorem lies_return {kind : TokenKind} (isBreak : kind.endsLine = true) (rest : List Char) :
    kind.Lies ('\r' :: rest.take (if rest.head? == some '\n' then 1 else 0))
      (rest.drop (if rest.head? == some '\n' then 1 else 0)) := by
  -- A line feed right after it belongs to it, and nothing else does.
  by_cases feed : rest.head? = some '\n'
  · obtain ⟨others, rfl⟩ := List.head?_eq_some_iff.mp feed
    exact .ends isBreak (.inr (.inr rfl)) nofun
  · rw [if_neg (by simpa using feed)]
    exact .ends isBreak (.inr (.inl rfl)) fun _ => feed

/-- A comment lies on one line or on several. -/
theorem lies_comment {rest : List Char} {length : Nat}
    (found : commentAfterSlash? rest = some length) :
    TokenKind.comment.Lies ('/' :: rest.take length) (rest.drop length) := by
  -- The first character after the slash tells whether the comment ends with its line.
  by_cases slash : ∃ line, rest = '/' :: line
  · obtain ⟨line, rfl⟩ := slash
    obtain rfl := Option.some.inj found
    rw [Nat.add_comm, List.take_succ_cons]
    have plain : (line.take (runLength staysOnLine line)).all staysOnLine = true :=
      all_take_runLength rfl rfl line
    exact .stays rfl (by rw [List.all_cons, List.all_cons, plain]; rfl)
  rw [not_exists] at slash
  by_cases star : ∃ block, rest = '*' :: block
  · obtain ⟨block, rfl⟩ := star
    by_cases closes : ∃ tail, block = '/' :: tail
    · obtain ⟨tail, rfl⟩ := closes
      obtain rfl := Option.some.inj found
      exact .stays rfl rfl
    · rw [commentAfterSlash?_star (not_exists.mp closes)] at found
      obtain rfl := Option.some.inj found
      rw [Nat.add_comm, List.take_succ_cons, List.drop_succ_cons]
      refine .spans rfl rfl ?_
      rcases drop_blockLength block with nothing | ends
      · exact .inl nothing
      · exact .inr ⟨'/', by rw [List.getLast?_cons, List.getLast?_cons, ends]; rfl, rfl⟩
  · rw [commentAfterSlash?_eq_none slash (not_exists.mp star)] at found
    cases found

/-- A lexeme lies on the lines of a text as its kind tells. -/
theorem lies_lexemeAt {c : Char} {rest : List Char} {lexeme : Lexeme} {length : Nat}
    (found : lexemeAt c rest = (lexeme, length)) (text : String) (continued : Bool) :
    (lexeme.kind text continued).Lies (c :: rest.take length) (rest.drop length) := by
  by_cases feed : c = '\n'
  · subst feed
    obtain ⟨rfl, rfl⟩ := Prod.mk.inj found
    exact .ends (Lexeme.endsLine_kind _ _ _) (.inl rfl) nofun
  by_cases returned : c = '\r'
  · subst returned
    obtain ⟨rfl, rfl⟩ := Prod.mk.inj found
    exact lies_return (Lexeme.endsLine_kind _ _ _) rest
  -- Any other first character stays on its line, and so does a run after it.
  have stays : staysOnLine c = true := by simp [staysOnLine, feed, returned]
  have run {shape : Lexeme} {test : Char → Bool}
      (found : (shape, runLength test rest) = (lexeme, length)) (other : shape ≠ .lineBreak)
      (feed : test '\n' = false) (returned : test '\r' = false) :
      (lexeme.kind text continued).Lies (c :: rest.take length) (rest.drop length) := by
    obtain ⟨rfl, rfl⟩ := Prod.mk.inj found
    have plain := all_take_runLength feed returned rest
    exact Lexeme.lies_of_all other (by rw [List.all_cons, stays, plain]; rfl) text continued
  have sign (found : signOrUnknown c rest = (lexeme, length)) :
      (lexeme.kind text continued).Lies (c :: rest.take length) (rest.drop length) := by
    obtain ⟨other, plain⟩ := signOrUnknown_stays stays rest
    rw [found] at other plain
    exact Lexeme.lies_of_all other plain text continued
  simp only [lexemeAt, beq_eq_false_iff_ne.mpr feed, beq_eq_false_iff_ne.mpr returned,
    Bool.false_eq_true, if_false] at found
  split_ifs at found with word digit directive quoted space tab slash
  · exact run found nofun rfl rfl
  · obtain ⟨other, plain⟩ := numberAfter_stays rest
    rw [found] at other plain
    exact Lexeme.lies_of_all other (by rw [List.all_cons, stays, plain]; rfl) text continued
  · exact run found nofun rfl rfl
  · obtain ⟨rfl, rfl⟩ := Prod.mk.inj found
    -- The quote that closes a text is the one that opens it.
    refine .spans rfl rfl ?_
    rcases drop_quotedLength c rest with nothing | ends
    · exact .inl nothing
    · exact .inr ⟨c, by rw [List.getLast?_cons, ends]; rfl, stays⟩
  · exact run found nofun rfl rfl
  · exact run found nofun rfl rfl
  · cases commented : commentAfterSlash? rest with
    | some inside =>
      rw [commented] at found
      obtain ⟨rfl, rfl⟩ := Prod.mk.inj found
      rw [beq_iff_eq.mp slash]
      exact lies_comment commented
    | none =>
      rw [commented] at found
      exact sign found
  · exact sign found

/-- A token stops as many bytes after its start as its characters have. -/
theorem Token.stop_eq (token : Token) : token.stop = token.start + utf8Len token.text.toList := by
  rw [stop, ← String.utf8ByteSize_ofList, String.ofList_toList]

/-- The next characters are those of a lexeme, which lie on lines as its kind tells, and those left after it. -/
theorem split_lexemeAt {c : Char} {rest : List Char} {lexeme : Lexeme} {length : Nat}
    (found : lexemeAt c rest = (lexeme, length)) (continued : Bool) :
    let text := String.ofList (c :: rest.take length)
    c :: rest = text.toList ++ rest.drop length
      ∧ (lexeme.kind text continued).Lies text.toList (rest.drop length) := by
  intro text
  have taken : text.toList = c :: rest.take length := String.toList_ofList
  rw [taken]
  constructor
  · rw [List.cons_append, List.take_append_drop]
  · exact lies_lexemeAt found text continued

/-- Every scanned token stands between the characters before it and those after it, apart from both, and lies on lines as its kind tells. -/
theorem exists_split_of_mem_tokensFrom {continued : Bool} {start : Nat} {chars : List Char}
    {token : Token} (member : token ∈ tokensFrom continued start chars) :
    ∃ before after, chars = before ++ (token.text.toList ++ after)
      ∧ token.start = start + utf8Len before ∧ Apart before (token.text.toList ++ after)
      ∧ token.kind.Lies token.text.toList after := by
  induction continued, start, chars using tokensFrom.induct with
  | case1 continued start =>
    rw [tokensFrom, List.mem_singleton] at member
    subst member
    exact ⟨[], [], rfl, rfl, .nil _, .stays rfl rfl⟩
  | case2 continued start c rest lexeme length shape text first ih =>
    obtain ⟨read, lies⟩ := split_lexemeAt shape continued
    rw [tokensFrom, shape] at member
    rcases List.mem_cons.mp member with rfl | further
    · exact ⟨[], rest.drop length, read, rfl, .nil _, lies⟩
    · -- What the later token comes after begins with the first one.
      obtain ⟨before, after, left, begins, apart, lies'⟩ := ih further
      refine ⟨text.toList ++ before, after, ?_, ?_, ?_, lies'⟩
      · rw [read, left, List.append_assoc]
      · rw [begins, Token.stop_eq, utf8Len_append, Nat.add_assoc]
      · apply Apart.append
        · rw [← left]
          exact lies.apart
        · exact apart

/-- The lines of a text begin where those of its tokens do. -/
theorem lineStartsFrom_eq_flatMap (continued : Bool) (start : Nat) (chars : List Char) :
    lineStartsFrom start chars = (tokensFrom continued start chars).flatMap fun token =>
      lineStartsFrom token.start token.text.toList := by
  induction continued, start, chars using tokensFrom.induct with
  | case1 continued start =>
    rw [tokensFrom]
    rfl
  | case2 continued start c rest lexeme length shape text first ih =>
    -- The first token and what is left of the text do not share a line break.
    obtain ⟨read, lies⟩ := split_lexemeAt shape continued
    rw [read, lineStartsFrom_append lies.apart, ← read, tokensFrom, shape, List.flatMap_cons, ← ih,
      ← first.stop_eq]

/-- Reading the characters of a token leads from the position where it starts to the one where it stops. -/
theorem position_stop_of_mem_tokenize {text : String} {token : Token}
    (member : token ∈ tokenize text) :
    (LineIndex.ofText text).position token.stop
      = ((LineIndex.ofText text).position token.start).after token.text.toList := by
  obtain ⟨before, after, split, begins, apart, lies⟩ := exists_split_of_mem_tokensFrom member
  rw [Nat.zero_add] at begins
  have original : text = String.ofList (before ++ (token.text.toList ++ after)) := by
    rw [← split, String.ofList_toList]
  -- Both positions are found by reading from the start of the text, which may be split there as no
  -- line ending is cut in two.
  have start := LineIndex.position_ofText apart
  rw [← original, ← begins] at start
  have stop := LineIndex.position_ofText (apart.append lies.apart)
  rw [List.append_assoc, ← original, utf8Len_append, ← begins, ← token.stop_eq] at stop
  rw [stop, start, Position.after_append apart.of_append]

/-- A line of a text that is not the first one begins where a line break ends, or within a token that may span several lines. -/
theorem exists_token_of_mem_laterStarts {text : String} {start : Nat}
    (begins : start ∈ (LineIndex.ofText text).laterStarts) :
    ∃ token ∈ tokenize text, token.kind.endsLine = true ∧ start = token.stop
      ∨ token.kind.spansLines = true ∧ token.start < start ∧ start ≤ token.stop
        ∧ (start = token.stop → token.stop = text.utf8ByteSize) := by
  -- The line begins after a character of some token.
  rw [LineIndex.ofText, lineStartsFrom_eq_flatMap false, List.mem_flatMap] at begins
  obtain ⟨token, member, inside⟩ := begins
  obtain ⟨before, after, split, first, -, lies⟩ := exists_split_of_mem_tokensFrom member
  refine ⟨token, member, ?_⟩
  cases isBreak : token.kind.endsLine with
  | true =>
    rw [lies.lineStartsFrom_eq isBreak, List.mem_singleton, ← token.stop_eq] at inside
    exact .inl ⟨rfl, inside⟩
  | false =>
    cases mayBreak : token.kind.spansLines with
    | false =>
      rw [lineStartsFrom_of_all (lies.all_staysOnLine isBreak mayBreak)] at inside
      cases inside
    | true =>
      obtain ⟨later, upTo⟩ := range_of_mem_lineStartsFrom inside
      rw [← token.stop_eq] at upTo
      refine .inr ⟨rfl, later, upTo, fun last => ?_⟩
      -- Nothing comes after the token, so that it ends with the text.
      rw [last, token.stop_eq] at inside
      have nothing := lies.eq_nil_of_stop_mem isBreak inside
      rw [token.stop_eq, first, Nat.zero_add, ← utf8Len_append, ← List.append_nil token.text.toList,
        ← nothing, ← split, ← String.utf8ByteSize_ofList, String.ofList_toList]

/-- The line scan and the tokens of a text agree. Every line break ends where a line begins, and at column zero of the line after its own. Every line but the first begins where a line break ends, or within a string or a comment, and where that ends only if the text does. Every other token is on one line, and has as many columns as bytes. -/
theorem tokenize_lines (text : String) :
    let lines := LineIndex.ofText text
    (∀ token ∈ tokenize text, token.kind.endsLine = true →
        token.stop ∈ lines.starts
        ∧ lines.position token.stop = ⟨(lines.position token.start).line + 1, 0⟩)
      ∧ (∀ start ∈ lines.starts, 0 < start → ∃ token ∈ tokenize text,
        token.kind.endsLine = true ∧ start = token.stop
        ∨ token.kind.spansLines = true ∧ token.start < start ∧ start ≤ token.stop
          ∧ (start = token.stop → token.stop = text.utf8ByteSize))
      ∧ ∀ token ∈ tokenize text, token.kind.endsLine = false → token.kind.spansLines = false →
        lines.position token.stop = ⟨(lines.position token.start).line,
          (lines.position token.start).column + token.text.utf8ByteSize⟩ := by
  intro lines
  refine ⟨?_, ?_, ?_⟩
  · intro token member isBreak
    obtain ⟨_, _, -, -, -, lies⟩ := exists_split_of_mem_tokensFrom member
    constructor
    · -- A line begins where the token ends, among the lines of the token itself.
      apply List.mem_cons_of_mem
      show token.stop ∈ lineStartsFrom 0 text.toList
      rw [lineStartsFrom_eq_flatMap false]
      apply List.mem_flatMap_of_mem member
      rw [lies.lineStartsFrom_eq isBreak, token.stop_eq]
      exact List.mem_cons_self
    · rw [position_stop_of_mem_tokenize member]
      exact lies.after_eq isBreak _
  · intro start begins positive
    rcases List.mem_cons.mp begins with rfl | later
    · exact absurd positive (Nat.lt_irrefl 0)
    · exact exists_token_of_mem_laterStarts later
  · intro token member noBreak noSpan
    obtain ⟨_, _, -, -, -, lies⟩ := exists_split_of_mem_tokensFrom member
    rw [position_stop_of_mem_tokenize member,
      Position.after_of_all (lies.all_staysOnLine noBreak noSpan), ← String.utf8ByteSize_ofList,
      String.ofList_toList]

/-- A carriage return alone breaks the line, one before a line feed in a string does not, and the last line begins at the end of a string that is not closed. -/
theorem tokenize_lines_unclosed :
    ∃ space ∈ tokenize "a \"b\r\nc\"\r'd\n", ∃ lineBreak ∈ tokenize "a \"b\r\nc\"\r'd\n",
      ∃ last ∈ tokenize "a \"b\r\nc\"\r'd\n",
        (LineIndex.ofText "a \"b\r\nc\"\r'd\n").starts = [0, 6, 9, 12]
        ∧ (LineIndex.ofText "a \"b\r\nc\"\r'd\n").position space.stop = ⟨0, 2⟩
        ∧ lineBreak.kind.endsLine = true ∧ lineBreak.stop = 9
        ∧ (LineIndex.ofText "a \"b\r\nc\"\r'd\n").position lineBreak.stop = ⟨2, 0⟩
        ∧ last.kind.spansLines = true ∧ last.start < 12 ∧ 12 ≤ last.stop := by
  have scanned : tokenize "a \"b\r\nc\"\r'd\n"
      = [⟨.name, "a", 0⟩, ⟨.spaces, " ", 1⟩, ⟨.string, "\"b\r\nc\"", 2⟩, ⟨.hardBreak, "\r", 8⟩,
        ⟨.string, "'d\n", 9⟩, ⟨.endOfText, "", 12⟩] := by
    decide +kernel
  have starts : (LineIndex.ofText "a \"b\r\nc\"\r'd\n").starts = [0, 6, 9, 12] := by decide +kernel
  have space : (⟨.spaces, " ", 1⟩ : Token) ∈ tokenize "a \"b\r\nc\"\r'd\n" := by simp [scanned]
  have lineBreak : (⟨.hardBreak, "\r", 8⟩ : Token) ∈ tokenize "a \"b\r\nc\"\r'd\n" := by
    simp [scanned]
  -- No line break ends at the end of the text.
  have none : ∀ token ∈ tokenize "a \"b\r\nc\"\r'd\n", token.kind.endsLine = true →
      12 ≠ token.stop := by
    rw [scanned]
    decide +kernel
  obtain ⟨breaks, lines, others⟩ := tokenize_lines "a \"b\r\nc\"\r'd\n"
  obtain ⟨last, member, ⟨isBreak, ends⟩ | ⟨spans, after, upTo, -⟩⟩ :=
    lines 12 (by simp [starts]) (by decide)
  · exact absurd ends (none last member isBreak)
  · exact ⟨_, space, _, lineBreak, last, member, starts, others _ space rfl rfl, rfl, rfl,
      (breaks _ lineBreak rfl).2, spans, after, upTo⟩

end Dxl
