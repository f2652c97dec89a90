import Dxl.Proofs.Token.Mirror

/-! Tokens on their own: a lexeme ends where it does whatever comes after it, so that only a line break depends on the text around it. -/

namespace Dxl

/-- A scan reaches no further than there are characters, and what comes after those it reaches makes no difference. -/
structure Confined {α : Type} (reach : α → Nat) (scan : List Char → α) : Prop where
  /-- A scan ends with the characters at the latest. -/
  within : ∀ rest, reach (scan rest) ≤ rest.length
  /-- The characters behind its end can be left out. -/
  alone : ∀ rest kept, reach (scan rest) ≤ kept → scan (rest.take kept) = scan rest

/-- A character that does not stand first does not come to stand first by leaving out what comes later. -/
theorem take_ne_cons {c : Char} {rest : List Char} (others : ∀ tail, rest ≠ c :: tail) (kept : Nat)
    (tail : List Char) : rest.take kept ≠ c :: tail := by
  -- What is left begins as the whole does, if anything is left.
  intro begins
  cases rest with
  | nil => simp at begins
  | cons first further =>
    cases kept with
    | zero => simp at begins
    | succ kept =>
      rw [List.take_succ_cons, List.cons.injEq] at begins
      exact others further (by rw [begins.1])

/-- A run ends where its characters do. -/
theorem confined_runLength (test : Char → Bool) : Confined id (runLength test) where
  within := runLength_le test
  alone rest kept reached := by
    -- Taking characters from the front and taking those of the run go in either order.
    rw [id_eq, runLength] at reached
    rw [runLength, ← List.take_takeWhile, List.length_take, runLength, Nat.min_eq_right reached]

/-- What follows a run still does where the text is cut after the run. -/
theorem drop_runLength_take {test : Char → Bool} {rest : List Char} {kept : Nat}
    (reached : runLength test rest ≤ kept) :
    (rest.take kept).drop (runLength test (rest.take kept))
      = (rest.drop (runLength test rest)).take (kept - runLength test rest) := by
  rw [(confined_runLength test).alone rest kept reached, List.drop_take]

/-- An exponent ends after its digits. -/
theorem confined_exponentLength : Confined id exponentLength where
  within rest := by
    cases rest with
    | nil => exact Nat.le_refl _
    | cons c tail =>
      have := runLength_le Char.isDigit tail
      rw [id_eq, exponentLength_cons, List.length_cons]
      split <;> omega
  alone rest kept reached := by
    cases rest with
    | nil => rw [List.take_nil]
    | cons c tail =>
      rw [id_eq] at reached
      cases kept with
      | zero => rw [List.take_zero, Nat.le_zero.mp reached]; rfl
      | succ kept =>
        rw [exponentLength_cons] at reached
        rw [List.take_succ_cons, exponentLength_cons, exponentLength_cons]
        -- The mark is kept, and so are the digits after it.
        split
        · rename_i marks
          rw [if_pos marks] at reached
          rw [(confined_runLength Char.isDigit).alone tail kept (by rw [id_eq]; omega)]
        · rfl

/-- A number ends after its digits, its fraction and its exponent. -/
theorem confined_numberAfter : Confined Prod.snd numberAfter where
  within rest := by
    have whole := runLength_le Char.isDigit rest
    have left : (rest.drop (runLength Char.isDigit rest)).length
        = rest.length - runLength Char.isDigit rest := List.length_drop
    by_cases point : ∃ fraction, rest.drop (runLength Char.isDigit rest) = '.' :: fraction
    · -- With a point, a fraction and an exponent follow, each of which has room.
      obtain ⟨fraction, point⟩ := point
      have digits := runLength_le Char.isDigit fraction
      have exponent :=
        confined_exponentLength.within (fraction.drop (runLength Char.isDigit fraction))
      rw [point, List.length_cons] at left
      rw [id_eq, List.length_drop] at exponent
      rw [numberAfter_of_point point]
      dsimp only
      omega
    · -- Without one, the exponent follows the digits at once.
      have exponent := confined_exponentLength.within (rest.drop (runLength Char.isDigit rest))
      rw [numberAfter_of_no_point (not_exists.mp point)]
      rw [id_eq] at exponent
      dsimp only
      omega
  alone rest kept reached := by
    -- The same digits are followed by a point in both texts or in neither.
    by_cases point : ∃ fraction, rest.drop (runLength Char.isDigit rest) = '.' :: fraction
    · obtain ⟨fraction, point⟩ := point
      rw [numberAfter_of_point point] at reached ⊢
      dsimp only at reached
      obtain ⟨more, enough⟩ : ∃ more, kept - runLength Char.isDigit rest = more + 1 :=
        ⟨kept - runLength Char.isDigit rest - 1, by omega⟩
      have whole := (confined_runLength Char.isDigit).alone rest kept (by rw [id_eq]; omega)
      have digits := (confined_runLength Char.isDigit).alone fraction more (by rw [id_eq]; omega)
      have pointStill : (rest.take kept).drop (runLength Char.isDigit (rest.take kept))
          = '.' :: fraction.take more := by
        rw [drop_runLength_take (by omega), point, enough, List.take_succ_cons]
      rw [numberAfter_of_point pointStill, whole, drop_runLength_take (by omega), digits,
        confined_exponentLength.alone _ _ (by rw [id_eq]; omega)]
    · rw [not_exists] at point
      rw [numberAfter_of_no_point point] at reached ⊢
      dsimp only at reached
      have whole := (confined_runLength Char.isDigit).alone rest kept (by rw [id_eq]; omega)
      -- Cutting the text off puts no point where there was none.
      have pointless (fraction : List Char) :
          (rest.take kept).drop (runLength Char.isDigit (rest.take kept)) ≠ '.' :: fraction := by
        rw [drop_runLength_take (by omega)]
        exact take_ne_cons point _ fraction
      rw [numberAfter_of_no_point pointless, drop_runLength_take (by omega), whole,
        confined_exponentLength.alone _ _ (by rw [id_eq]; omega)]

/-- A quoted text ends at its closing quote, or with the characters. -/
theorem confined_quotedLength (quote : Char) : Confined id (quotedLength quote) where
  -- The scan stops at the end or at the quote, and goes on after any other character or two.
  within rest := by
    rw [id_eq]
    induction rest using quotedLength.induct quote with
    | case1 => exact Nat.le_refl _
    | case2 => exact Nat.le_refl _
    | case3 c rest ih =>
      -- The character that is escaped counts as well.
      rw [quotedLength, List.length_cons, List.length_cons]
      omega
    | case4 c rest single escaped closes =>
      rw [quotedLength_cons (ne_backslash single escaped), if_pos closes, List.length_cons]
      omega
    | case5 c rest single escaped goesOn ih =>
      rw [quotedLength_cons (ne_backslash single escaped), if_neg goesOn, List.length_cons]
      omega
  alone rest kept reached := by
    rw [id_eq] at reached
    induction rest using quotedLength.induct quote generalizing kept with
    | case1 => rw [List.take_nil]
    | case2 =>
      -- A backslash at the end escapes nothing, and is reached.
      rw [quotedLength] at reached
      rw [List.take_of_length_le reached]
    | case3 c rest ih =>
      -- The escaped character is kept along with its backslash.
      rw [quotedLength] at reached
      obtain ⟨more, rfl⟩ : ∃ more, kept = more + 2 := ⟨kept - 2, by omega⟩
      rw [List.take_succ_cons, List.take_succ_cons, quotedLength, quotedLength, ih more (by omega)]
    | case4 c rest single escaped closes =>
      have escapes := ne_backslash single escaped
      rw [quotedLength_cons escapes, if_pos closes] at reached
      obtain ⟨more, rfl⟩ : ∃ more, kept = more + 1 := ⟨kept - 1, by omega⟩
      rw [List.take_succ_cons, quotedLength_cons escapes, quotedLength_cons escapes, if_pos closes,
        if_pos closes]
    | case5 c rest single escaped goesOn ih =>
      have escapes := ne_backslash single escaped
      rw [quotedLength_cons escapes, if_neg goesOn] at reached
      obtain ⟨more, rfl⟩ : ∃ more, kept = more + 1 := ⟨kept - 1, by omega⟩
      rw [List.take_succ_cons, quotedLength_cons escapes, quotedLength_cons escapes, if_neg goesOn,
        if_neg goesOn, ih more (by omega)]

/-- A block comment ends at its closing star and slash, or with the characters. -/
theorem confined_blockLength : Confined id blockLength where
  within rest := by
    rw [id_eq]
    induction rest using blockLength.induct with
    | case1 => exact Nat.le_refl _
    | case2 rest =>
      rw [blockLength, List.length_cons, List.length_cons]
      omega
    -- Any character that does not close the comment is passed over.
    | case3 c rest goesOn ih =>
      rw [blockLength_cons goesOn, List.length_cons]
      omega
  alone rest kept reached := by
    rw [id_eq] at reached
    induction rest using blockLength.induct generalizing kept with
    | case1 => rw [List.take_nil]
    | case2 rest =>
      rw [blockLength] at reached
      -- The star and the slash that close the comment are both kept.
      obtain ⟨more, rfl⟩ : ∃ more, kept = more + 2 := ⟨kept - 2, by omega⟩
      rw [List.take_succ_cons, List.take_succ_cons, blockLength, blockLength]
    | case3 c rest goesOn ih =>
      rw [blockLength_cons goesOn] at reached
      obtain ⟨more, rfl⟩ : ∃ more, kept = more + 1 := ⟨kept - 1, by omega⟩
      -- Where no star and slash stood, cutting the text off later puts none.
      have goesOnStill (tail : List Char) (isStar : c = '*') : rest.take more ≠ '/' :: tail :=
        take_ne_cons (fun other => goesOn other isStar) more tail
      rw [List.take_succ_cons, blockLength_cons goesOnStill, blockLength_cons goesOn,
        ih more (by omega)]

/-- A comment ends with its line or at its closing star and slash, and none begins where none began. -/
theorem confined_commentAfterSlash? :
    Confined (fun length : Option Nat => length.getD 0) commentAfterSlash? where
  within rest := by
    unfold commentAfterSlash?
    split
    · -- A line comment is a run, and a block comment is closed somewhere.
      rename_i line
      have := runLength_le staysOnLine line
      rw [Option.getD_some, List.length_cons]
      omega
    · simp
    · rename_i block _
      have := confined_blockLength.within block
      rw [Option.getD_some, List.length_cons]
      rw [id_eq] at this
      omega
    · exact Nat.zero_le _
  alone rest kept reached := by
    -- The first character tells whether the comment is a line, a block, or none.
    by_cases slash : ∃ line, rest = '/' :: line
    · obtain ⟨line, rfl⟩ := slash
      rw [commentAfterSlash?, Option.getD_some] at reached
      obtain ⟨more, rfl⟩ : ∃ more, kept = more + 1 := ⟨kept - 1, by omega⟩
      rw [List.take_succ_cons, commentAfterSlash?, commentAfterSlash?,
        (confined_runLength staysOnLine).alone line more (by rw [id_eq]; omega)]
    rw [not_exists] at slash
    by_cases star : ∃ block, rest = '*' :: block
    · obtain ⟨block, rfl⟩ := star
      -- A slash right after the star closes the comment at once.
      by_cases closes : ∃ tail, block = '/' :: tail
      · obtain ⟨tail, rfl⟩ := closes
        rw [commentAfterSlash?, Option.getD_some] at reached
        obtain ⟨more, rfl⟩ : ∃ more, kept = more + 2 := ⟨kept - 2, by omega⟩
        rw [List.take_succ_cons, List.take_succ_cons, commentAfterSlash?, commentAfterSlash?]
      · rw [not_exists] at closes
        rw [commentAfterSlash?_star closes, Option.getD_some] at reached
        obtain ⟨more, rfl⟩ : ∃ more, kept = more + 1 := ⟨kept - 1, by omega⟩
        rw [List.take_succ_cons, commentAfterSlash?_star closes,
          commentAfterSlash?_star (take_ne_cons closes more),
          confined_blockLength.alone block more (by rw [id_eq]; omega)]
    · rw [not_exists] at star
      rw [commentAfterSlash?_eq_none slash star,
        commentAfterSlash?_eq_none (take_ne_cons slash kept) (take_ne_cons star kept)]

/-- Every sign is spelled with something. -/
theorem Sign.length_spelling_pos (sign : Sign) : 0 < sign.spelling.length := by
  cases sign <;> decide

/-- The longest sign is still the longest one where the text is cut after it. -/
theorem Sign.longest?_take {chars : List Char} {sign : Sign} {kept : Nat}
    (found : Sign.longest? chars = some sign) (enough : sign.spelling.length ≤ kept) :
    Sign.longest? (chars.take kept) = some sign := by
  have positive := sign.length_spelling_pos
  simp only [Sign.longest?, Option.orElse_eq_some, List.take_take] at found ⊢
  -- Three characters are tried first, then two, then one.
  rcases found with three | ⟨noThree, two | ⟨noTwo, one⟩⟩
  · refine .inl ?_
    have spelled := Sign.spelling_of_ofSpelling? three
    rw [spelled] at enough
    rw [Nat.min_comm, ← List.take_take, List.take_of_length_le enough, three]
  · -- The two characters stay, and if no more do, they are also the first three.
    have spelled := Sign.spelling_of_ofSpelling? two
    rw [spelled] at enough
    have still : Sign.ofSpelling? (chars.take (min 2 kept)) = some sign := by
      rw [Nat.min_comm, ← List.take_take, List.take_of_length_le enough, two]
    by_cases more : 3 ≤ kept
    · rw [Nat.min_eq_left more]
      exact .inr ⟨noThree, .inl still⟩
    · rw [show min 3 kept = min 2 kept by omega]
      exact .inl still
  · -- A longer sign would be one of the whole text as well.
    have one : Sign.ofSpelling? (chars.take (min 1 kept)) = some sign := by
      rw [Nat.min_eq_left (by omega), one]
    by_cases more : 2 ≤ kept
    · have none : Sign.ofSpelling? (chars.take (min 3 kept)) = none := by
        by_cases all : 3 ≤ kept
        · rw [Nat.min_eq_left all, noThree]
        · rw [show min 3 kept = 2 by omega, noTwo]
      rw [none, Nat.min_eq_left more]
      exact .inr ⟨rfl, .inr ⟨noTwo, one⟩⟩
    · rw [show min 3 kept = min 1 kept by omega]
      exact .inl one

/-- Where no sign begins, none does if characters are left out. -/
theorem Sign.longest?_take_eq_none {chars : List Char} (none : Sign.longest? chars = none)
    (kept : Nat) : Sign.longest? (chars.take (kept + 1)) = Option.none := by
  simp only [Sign.longest?, Option.orElse_eq_none, List.take_take] at none ⊢
  obtain ⟨noThree, noTwo, noOne⟩ := none
  -- Whatever is tried of the cut text was tried of the whole.
  have cut (length : Nat) (positive : 0 < length) (few : length ≤ 3) :
      Sign.ofSpelling? (chars.take length) = Option.none := by
    interval_cases length <;> assumption
  exact ⟨cut _ (by omega) (by omega), cut _ (by omega) (by omega), cut _ (by omega) (by omega)⟩

/-- A sign ends where its spelling does. -/
theorem confined_signOrUnknown (c : Char) : Confined Prod.snd (signOrUnknown c) where
  within rest := by
    unfold signOrUnknown
    split
    · rename_i mark found
      obtain ⟨length, spelled⟩ := Sign.exists_spelling_of_longest? found
      rw [spelled, List.length_take, List.length_cons]
      dsimp only
      omega
    · exact Nat.zero_le _
  alone rest kept reached := by
    -- The first character is kept in any case, for it is not counted.
    unfold signOrUnknown at reached ⊢
    cases found : Sign.longest? (c :: rest) with
    | some mark =>
      simp only [found] at reached
      have enough : mark.spelling.length ≤ kept + 1 := by omega
      have still := Sign.longest?_take found enough
      rw [List.take_succ_cons] at still
      rw [still]
    | none =>
      have still := Sign.longest?_take_eq_none found kept
      rw [List.take_succ_cons] at still
      rw [still]

/-- A lexeme of one shape ends where what it consists of does. -/
theorem Confined.shaped {reach : List Char → Nat} (confined : Confined id reach) (lexeme : Lexeme) :
    Confined Prod.snd fun rest => (lexeme, reach rest) where
  within := confined.within
  alone rest kept reached := congrArg (Prod.mk lexeme) (confined.alone rest kept reached)

/-- What begins with a slash ends as a comment or as a sign. -/
theorem confined_slash :
    Confined Prod.snd fun rest => match commentAfterSlash? rest with
      | some length => (.comment, length)
      | none => signOrUnknown '/' rest where
  within rest := by
    have comment := confined_commentAfterSlash?.within rest
    cases found : commentAfterSlash? rest with
    | some length => simpa [found] using comment
    | none => exact (confined_signOrUnknown '/').within rest
  alone rest kept reached := by
    have comment := confined_commentAfterSlash?.alone rest kept
    -- No comment begins in the cut text where none began in the whole.
    cases found : commentAfterSlash? rest with
    | some length =>
      simp only [found] at reached comment
      rw [comment reached]
    | none =>
      simp only [found] at reached comment
      rw [comment (Nat.zero_le _)]
      exact (confined_signOrUnknown '/').alone rest kept reached

/-- A line break ends after the line feed that follows a carriage return. -/
theorem confined_lineBreak : Confined Prod.snd fun rest : List Char =>
    (Lexeme.lineBreak, if rest.head? == some '\n' then 1 else 0) where
  within rest := by
    cases rest with
    | nil => exact Nat.le_refl _
    | cons c rest =>
      rw [List.length_cons]
      dsimp only
      split <;> omega
  alone rest kept reached := by
    cases rest with
    | nil => rw [List.take_nil]
    | cons c rest =>
      cases kept with
      | succ kept => rfl
      | zero =>
        -- The line feed is not kept, so there is none to reach.
        dsimp only at reached ⊢
        split at reached
        · omega
        · rename_i other
          rw [if_neg other]
          rfl

/-- Every lexeme ends where it does whatever comes after it. -/
theorem confined_lexemeAt (c : Char) : Confined Prod.snd (lexemeAt c) := by
  have run (test : Char → Bool) (lexeme : Lexeme) :
      Confined Prod.snd fun rest => (lexeme, runLength test rest) :=
    (confined_runLength test).shaped lexeme
  unfold lexemeAt
  -- The first character tells the shape.
  split_ifs with word digit directive quoted space tab feed returned slash
  · exact run isWordChar .word
  · exact confined_numberAfter
  · exact run isWordChar .directive
  · exact (confined_quotedLength c).shaped .string
  · exact run (· == ' ') .spaces
  · exact run (· == '\t') .tabs
  · exact ⟨fun _ => Nat.zero_le _, fun _ _ _ => rfl⟩
  · exact confined_lineBreak
  · rw [beq_iff_eq.mp slash]
    exact confined_slash
  · exact confined_signOrUnknown c

/-- The kind that the text of a token has on its own: a line break ends a statement if nothing comes before it. -/
def TokenKind.standalone : TokenKind → TokenKind
  | .softBreak => .hardBreak
  | kind => kind

/-- The kind of a lexeme depends on what comes before it only if it is a line break. -/
theorem Lexeme.kind_standalone (lexeme : Lexeme) (text : String) (continued : Bool) :
    lexeme.kind text false = (lexeme.kind text continued).standalone := by
  cases lexeme with
  | word | directive =>
    simp only [Lexeme.kind]
    split <;> rfl
  | lineBreak => cases continued <;> rfl
  | _ => rfl

/-- Every scanned token but the last is made of a lexeme that begins with its first character. -/
theorem exists_lexeme_of_mem_tokensFrom {continued : Bool} {start : Nat} {chars : List Char}
    {token : Token} (member : token ∈ tokensFrom continued start chars)
    (inner : token.kind ≠ .endOfText) :
    ∃ c rest lexeme length before, lexemeAt c rest = (lexeme, length)
      ∧ token.text = String.ofList (c :: rest.take length)
      ∧ token.kind = lexeme.kind token.text before := by
  -- The scan makes a token of a lexeme, and goes on after it.
  induction continued, start, chars using tokensFrom.induct with
  | case1 continued start =>
    rw [tokensFrom, List.mem_singleton] at member
    exact absurd (congrArg Token.kind member) inner
  | case2 continued start c rest lexeme length shape text first ih =>
    rw [tokensFrom, shape] at member
    rcases List.mem_cons.mp member with rfl | further
    · exact ⟨c, rest, lexeme, length, continued, shape, rfl, rfl⟩
    · exact ih further

/-- The characters of a lexeme are scanned as that lexeme alone. -/
theorem tokenize_lexeme {c : Char} {rest : List Char} {lexeme : Lexeme} {length : Nat}
    (found : lexemeAt c rest = (lexeme, length)) :
    tokenize (String.ofList (c :: rest.take length))
      = [⟨lexeme.kind (String.ofList (c :: rest.take length)) false,
          String.ofList (c :: rest.take length), 0⟩,
        ⟨.endOfText, "", (String.ofList (c :: rest.take length)).utf8ByteSize⟩] := by
  have confined := confined_lexemeAt c
  have again : lexemeAt c (rest.take length) = (lexeme, length) := by
    rw [confined.alone rest length (by rw [found]), found]
  rw [tokenize, String.toList_ofList, tokensFrom, again]
  -- The lexeme takes all the characters that there are.
  simp only [List.take_take, Nat.min_self, List.drop_take, Nat.sub_self, List.take_zero, tokensFrom,
    Token.stop, Nat.zero_add]

/-- A line break is inside of a statement just if it comes after something that continues its line. -/
theorem Lexeme.kind_eq_softBreak_iff {lexeme : Lexeme} {text : String} {continued : Bool}
    (breaks : lexeme.kind text continued = .softBreak ∨ lexeme.kind text continued = .hardBreak) :
    lexeme.kind text continued = .softBreak ↔ continued = true := by
  cases lexeme with
  | word | directive =>
    simp only [Lexeme.kind] at breaks
    split at breaks <;> simp at breaks
  | lineBreak => cases continued <;> simp [Lexeme.kind]
  | _ => simp [Lexeme.kind] at breaks

/-- A scanned line break is inside of a statement just if the token right before it continues its line. -/
theorem softBreak_iff_of_tokensFrom {continued : Bool} {start : Nat} {chars : List Char}
    {before after : List Token} {token : Token}
    (split : tokensFrom continued start chars = before ++ token :: after)
    (breaks : token.kind = .softBreak ∨ token.kind = .hardBreak) :
    token.kind = .softBreak
      ↔ (before.getLast?.map Token.continuesLine).getD continued = true := by
  -- Whether the line is continued is handed on from each token to the next.
  induction continued, start, chars using tokensFrom.induct generalizing before with
  | case1 continued start =>
    rw [tokensFrom] at split
    have member : token ∈ [(⟨.endOfText, "", start⟩ : Token)] := by simp [split]
    rw [List.mem_singleton.mp member] at breaks
    simp at breaks
  | case2 continued start c rest lexeme length shape text first =>
    rename_i ih
    rw [tokensFrom, shape] at split
    cases before with
    | nil =>
      -- The first token comes after what was there before the scan.
      obtain ⟨rfl, -⟩ := List.cons.inj split
      exact Lexeme.kind_eq_softBreak_iff breaks
    | cons other others =>
      obtain ⟨rfl, further⟩ := List.cons.inj split
      rw [ih further, List.getLast?_cons, Option.map_some, Option.getD_some, Option.getD_map]

/-- A token continues its line by its kind, or as a comment that ends in a hyphen. -/
theorem Token.continuesLine_iff (token : Token) :
    token.continuesLine = true ↔ token.kind.continuesLine = true
      ∨ token.kind = .comment ∧ token.text.toList.getLast? = some '-' := by
  unfold Token.continuesLine
  split
  · rename_i isComment
    simp [isComment, TokenKind.continuesLine]
  · rename_i other
    exact ⟨.inl, fun either => either.resolve_right fun isComment => other isComment.1⟩

/-- The text of a token alone is scanned as that token, except that a line break ends a statement there; in a text it does so unless the token right before it expects more by its kind, or is a comment that ends in a hyphen. -/
theorem tokenize_standalone (text : String) :
    (∀ token ∈ tokenize text, token.kind ≠ .endOfText →
      tokenize token.text = [⟨token.kind.standalone, token.text, 0⟩,
        ⟨.endOfText, "", token.text.utf8ByteSize⟩])
    ∧ ∀ before token after, tokenize text = before ++ token :: after →
      token.kind = .softBreak ∨ token.kind = .hardBreak →
      (token.kind = .softBreak ↔ ∃ previous, before.getLast? = some previous
        ∧ (previous.kind.continuesLine = true
          ∨ previous.kind = .comment ∧ previous.text.toList.getLast? = some '-')) := by
  constructor
  · -- The characters of a token are what its lexeme takes, wherever it stands.
    intro token member inner
    obtain ⟨c, rest, lexeme, length, before, found, spelled, kind⟩ :=
      exists_lexeme_of_mem_tokensFrom member inner
    rw [kind, ← Lexeme.kind_standalone, spelled]
    exact tokenize_lexeme found
  · intro before token after split breaks
    rw [softBreak_iff_of_tokensFrom split breaks]
    cases before.getLast? with
    | none => simp
    | some previous => simp [Token.continuesLine_iff]

/-- The line break after a comment that ends in a hyphen is inside of a statement, and ends one on its own. -/
theorem tokenize_standalone_comment :
    ∃ token ∈ tokenize "a /*/-\n.5 //-\r\n'", token.start = 13 ∧ token.kind = .softBreak
      ∧ tokenize token.text = [⟨.hardBreak, "\r\n", 0⟩, ⟨.endOfText, "", 2⟩] := by
  have scanned : tokenize "a /*/-\n.5 //-\r\n'"
      = [⟨.name, "a", 0⟩, ⟨.spaces, " ", 1⟩, ⟨.comment, "/*/", 2⟩, ⟨.sign .minus, "-", 5⟩,
        ⟨.softBreak, "\n", 6⟩, ⟨.sign .dot, ".", 7⟩, ⟨.integer, "5", 8⟩, ⟨.spaces, " ", 9⟩,
        ⟨.comment, "//-", 10⟩, ⟨.softBreak, "\r\n", 13⟩, ⟨.string, "'", 15⟩,
        ⟨.endOfText, "", 16⟩] := by
    decide +kernel
  have member : (⟨.softBreak, "\r\n", 13⟩ : Token) ∈ tokenize "a /*/-\n.5 //-\r\n'" := by
    simp [scanned]
  have alone := (tokenize_standalone "a /*/-\n.5 //-\r\n'").1 _ member (by decide)
  exact ⟨_, member, rfl, rfl, alone⟩

end Dxl
