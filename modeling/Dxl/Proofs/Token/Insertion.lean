import Dxl.Proofs.Token.Standalone

/-! Insertion: what is put in after a closing parenthesis changes no token up to that parenthesis. -/

namespace Dxl

open String

/-- What is passed over before something that stops the passage does not depend on what follows it. -/
theorem takeWhile_append_cons {α : Type} (test : α → Bool) {stop : α} (stops : test stop = false)
    (front back : List α) : (front ++ stop :: back).takeWhile test = front.takeWhile test := by
  -- The front alone stops the passage, or the passage stops at the member behind it.
  rw [List.takeWhile_append, List.takeWhile_cons_of_neg (by simp [stops]), List.append_nil]
  split
  · rename_i all
    exact ((List.takeWhile_prefix test).eq_of_length all).symm
  · rfl

/-- A scan that does not reach a closing parenthesis is the same whatever follows it. -/
def Sealed {α : Type} (reach : α → Nat) (scan : List Char → α) : Prop :=
  ∀ front rest other, reach (scan (front ++ ')' :: rest)) ≤ front.length →
    scan (front ++ ')' :: other) = scan (front ++ ')' :: rest)

/-- A run that a closing parenthesis ends does not depend on what follows it. -/
theorem runLength_append {test : Char → Bool} (stops : test ')' = false) (front rest : List Char) :
    runLength test (front ++ ')' :: rest) = runLength test front := by
  rw [runLength, runLength, takeWhile_append_cons test stops]

/-- What comes after such a run ends with the parenthesis and what follows it. -/
theorem drop_runLength_append {test : Char → Bool} (stops : test ')' = false)
    (front rest : List Char) :
    (front ++ ')' :: rest).drop (runLength test (front ++ ')' :: rest))
      = front.drop (runLength test front) ++ ')' :: rest := by
  rw [runLength_append stops, List.drop_append_of_le_length (runLength_le test front)]

/-- A run ends before the parenthesis that it does not reach. -/
theorem sealed_runLength (test : Char → Bool) : Sealed id (runLength test) := by
  intro front rest other short
  cases stops : test ')' with
  -- If the parenthesis fails the test, the run ends at it in any case.
  | false => rw [runLength_append stops, runLength_append stops]
  | true =>
    -- If all before the parenthesis passed the test, the run would go on with it.
    have ends : (front.takeWhile test).length ≠ front.length := by
      intro all
      rw [id_eq, runLength, List.takeWhile_append, if_pos all, List.takeWhile_cons_of_pos stops,
        List.length_append, List.length_cons] at short
      omega
    rw [runLength, runLength, List.takeWhile_append, List.takeWhile_append, if_neg ends,
      if_neg ends]

/-- An exponent ends before a closing parenthesis. -/
theorem exponentLength_append (front rest other : List Char) :
    exponentLength (front ++ ')' :: other) = exponentLength (front ++ ')' :: rest) := by
  -- The mark of the exponent, if there is one, stands first, and the digits after it are a run.
  cases front with
  | nil => rfl
  | cons c front =>
    have digits (rest : List Char) :
        runLength Char.isDigit (front ++ ')' :: rest) = runLength Char.isDigit front :=
      runLength_append rfl front rest
    rw [List.cons_append, List.cons_append, exponentLength_cons, exponentLength_cons, digits,
      digits]

/-- What does not come first before a closing parenthesis does not come first with it. -/
theorem append_ne_cons {c : Char} (other : c ≠ ')') {front : List Char}
    (others : ∀ tail, front ≠ c :: tail) (rest tail : List Char) :
    front ++ ')' :: rest ≠ c :: tail := by
  intro begins
  -- The front is not empty, so what stands first in it stands first in the whole.
  cases front with
  | nil => exact other (List.cons.inj begins).1.symm
  | cons first front =>
    rw [List.cons_append, List.cons.injEq] at begins
    exact others front (by rw [begins.1])

/-- A number ends before a closing parenthesis. -/
theorem numberAfter_append (front rest other : List Char) :
    numberAfter (front ++ ')' :: other) = numberAfter (front ++ ')' :: rest) := by
  have digit : Char.isDigit ')' = false := rfl
  have whole := runLength_append digit
  have left := drop_runLength_append digit front
  -- The same digits are followed by a point whatever follows the parenthesis, or never.
  by_cases point : ∃ fraction, front.drop (runLength Char.isDigit front) = '.' :: fraction
  · obtain ⟨fraction, point⟩ := point
    have pointed (rest : List Char) :
        (front ++ ')' :: rest).drop (runLength Char.isDigit (front ++ ')' :: rest))
          = '.' :: (fraction ++ ')' :: rest) := by
      rw [left, point, List.cons_append]
    rw [numberAfter_of_point (pointed other), numberAfter_of_point (pointed rest), whole, whole,
      whole, whole, List.drop_append_of_le_length (runLength_le _ _),
      List.drop_append_of_le_length (runLength_le _ _), exponentLength_append _ rest other]
  · -- Without a point, the digits are followed by an exponent or by the parenthesis.
    have pointless (rest fraction : List Char) :
        (front ++ ')' :: rest).drop (runLength Char.isDigit (front ++ ')' :: rest))
          ≠ '.' :: fraction := by
      rw [left rest]
      exact append_ne_cons (by decide) (not_exists.mp point) rest fraction
    rw [numberAfter_of_no_point (pointless other), numberAfter_of_no_point (pointless rest), left,
      left, whole, whole, exponentLength_append _ rest other]

/-- A quoted text ends before the parenthesis that it does not reach. -/
theorem sealed_quotedLength (quote : Char) : Sealed id (quotedLength quote) := by
  intro front rest other short
  rw [id_eq] at short
  -- The scan goes on before the parenthesis as it would without it.
  induction front using quotedLength.induct quote with
  -- Before the parenthesis nothing is left, and the scan would take the parenthesis along.
  | case1 =>
    rw [List.nil_append, quotedLength_cons (by decide), List.length_nil] at short
    split at short <;> omega
  -- A backslash right before the parenthesis would escape it.
  | case2 =>
    rw [List.cons_append, List.nil_append, quotedLength, List.length_cons, List.length_nil] at short
    omega
  -- The escaped character is passed over whatever it is.
  | case3 c front ih =>
    simp only [List.cons_append, quotedLength, List.length_cons] at short ⊢
    rw [ih (by omega)]
  -- The text is closed before the parenthesis is reached.
  | case4 c front single escaped closes =>
    have escapes := ne_backslash single escaped
    rw [List.cons_append, List.cons_append, quotedLength_cons escapes, quotedLength_cons escapes,
      if_pos closes, if_pos closes]
  -- Any other character is counted, and what is left to reach is one less.
  | case5 c front single escaped goesOn ih =>
    have escapes := ne_backslash single escaped
    rw [List.cons_append, quotedLength_cons escapes, if_neg goesOn, List.length_cons] at short
    rw [List.cons_append, List.cons_append, quotedLength_cons escapes, quotedLength_cons escapes,
      if_neg goesOn, if_neg goesOn, ih (by omega)]

/-- A block comment ends before the parenthesis that it does not reach. -/
theorem sealed_blockLength : Sealed id blockLength := by
  intro front rest other short
  rw [id_eq] at short
  -- The cases are those of the scan: the end, a star before a slash, and any other character.
  induction front using blockLength.induct with
  | case1 =>
    -- Only the parenthesis itself comes next, and it is counted.
    have goesOn : ∀ tail, ')' = '*' → rest ≠ '/' :: tail :=
      fun _ isStar => absurd isStar (by decide)
    rw [List.nil_append, blockLength_cons goesOn, List.length_nil] at short
    omega
  | case2 front => rfl
  | case3 c front goesOn ih =>
    -- A slash after a star would have been before the parenthesis.
    have goesOnStill (rest tail : List Char) (isStar : c = '*') :
        front ++ ')' :: rest ≠ '/' :: tail :=
      append_ne_cons (by decide) (fun tail => goesOn tail isStar) rest tail
    rw [List.cons_append, blockLength_cons (goesOnStill rest), List.length_cons] at short
    rw [List.cons_append, List.cons_append, blockLength_cons (goesOnStill rest),
      blockLength_cons (goesOnStill other), ih (by omega)]

/-- A comment ends before the parenthesis that it does not reach, and whether one begins does not depend on what follows. -/
theorem sealed_commentAfterSlash? :
    Sealed (fun length : Option Nat => length.getD 0) commentAfterSlash? := by
  intro front rest other short
  -- What comes next decides between a line, a block and no comment at all.
  by_cases slash : ∃ line, front = '/' :: line
  · -- A line comment is a run, which the parenthesis does not end unless it is not reached.
    obtain ⟨line, rfl⟩ := slash
    simp only [List.cons_append, commentAfterSlash?, Option.getD_some, List.length_cons] at short ⊢
    rw [sealed_runLength staysOnLine line rest other (by rw [id_eq]; omega)]
  by_cases star : ∃ block, front = '*' :: block
  · obtain ⟨block, rfl⟩ := star
    -- A slash right after the star closes the comment before the parenthesis.
    by_cases closes : ∃ tail, block = '/' :: tail
    · obtain ⟨tail, rfl⟩ := closes
      rfl
    · have goesOn := append_ne_cons (by decide) (not_exists.mp closes)
      rw [List.cons_append, commentAfterSlash?_star (goesOn rest), List.length_cons] at short
      dsimp only [Option.getD_some] at short
      rw [List.cons_append, List.cons_append, commentAfterSlash?_star (goesOn rest),
        commentAfterSlash?_star (goesOn other),
        sealed_blockLength block rest other (by rw [id_eq]; omega)]
  · -- Neither the front nor the parenthesis begins a comment.
    have noSlash := append_ne_cons (by decide) (not_exists.mp slash)
    have noStar := append_ne_cons (by decide) (not_exists.mp star)
    rw [commentAfterSlash?_eq_none (noSlash other) (noStar other),
      commentAfterSlash?_eq_none (noSlash rest) (noStar rest)]

/-- A closing parenthesis begins no other sign and continues none. -/
theorem Sign.spelling_rightParen (sign : Sign) :
    ')' ∉ sign.spelling.tail ∧ (sign.spelling.head? = some ')' → sign = .rightParen) := by
  cases sign <;> decide

/-- The first characters are a sign or none whatever follows a closing parenthesis among the later ones. -/
theorem Sign.ofSpelling?_take (c : Char) (front rest other : List Char) (length : Nat) :
    Sign.ofSpelling? ((c :: (front ++ ')' :: other)).take length)
      = Sign.ofSpelling? ((c :: (front ++ ')' :: rest)).take length) := by
  by_cases short : length ≤ front.length + 1
  · -- The parenthesis is not among them.
    have cut (rest : List Char) : (c :: (front ++ ')' :: rest)).take length
        = (c :: front).take length := by
      rw [← List.cons_append]
      exact List.take_append_of_le_length (by simpa using short)
    rw [cut, cut]
  · -- No sign is spelled with a parenthesis after its first character.
    have none (rest : List Char) :
        Sign.ofSpelling? ((c :: (front ++ ')' :: rest)).take length) = .none := by
      cases found : Sign.ofSpelling? ((c :: (front ++ ')' :: rest)).take length) with
      | none => rfl
      | some sign =>
        have spelled := Sign.spelling_of_ofSpelling? found
        obtain ⟨more, rfl⟩ : ∃ more, length = front.length + 1 + (more + 1) :=
          ⟨length - front.length - 2, by omega⟩
        refine absurd ?_ sign.spelling_rightParen.1
        rw [spelled, Nat.add_right_comm, List.take_succ_cons, List.tail_cons,
          List.take_length_add_append, List.take_succ_cons]
        simp
    rw [none, none]

/-- Signs are the same whatever follows a closing parenthesis after their first character. -/
theorem signOrUnknown_append (c : Char) (front rest other : List Char) :
    signOrUnknown c (front ++ ')' :: other) = signOrUnknown c (front ++ ')' :: rest) := by
  -- The sign is looked for among the first three, two and one characters, which agree.
  have same : Sign.longest? (c :: (front ++ ')' :: other))
      = Sign.longest? (c :: (front ++ ')' :: rest)) := by
    simp only [Sign.longest?, Sign.ofSpelling?_take c front rest other]
  rw [signOrUnknown, signOrUnknown, same]

/-- A lexeme of one shape ends where what it consists of does. -/
theorem Sealed.shaped {reach : List Char → Nat} (reaches : Sealed id reach) (lexeme : Lexeme) :
    Sealed Prod.snd fun rest => (lexeme, reach rest) :=
  fun front rest other short => congrArg (Prod.mk lexeme) (reaches front rest other short)

/-- What begins with a slash ends before the parenthesis as a comment or as a sign. -/
theorem sealed_slash : Sealed Prod.snd fun rest => match commentAfterSlash? rest with
    | some length => (.comment, length)
    | none => signOrUnknown '/' rest := by
  intro front rest other short
  -- A comment that is not found before the parenthesis is not found with another text behind it.
  have comment := sealed_commentAfterSlash? front rest other
  cases found : commentAfterSlash? (front ++ ')' :: rest) with
  | some length =>
    simp only [found] at short comment ⊢
    rw [comment short]
  | none =>
    simp only [found] at comment ⊢
    rw [comment (Nat.zero_le _)]
    exact signOrUnknown_append '/' front rest other

/-- A line break ends before a closing parenthesis. -/
theorem sealed_lineBreak : Sealed Prod.snd fun rest : List Char =>
    (Lexeme.lineBreak, if rest.head? == some '\n' then 1 else 0) := by
  intro front rest other short
  cases front <;> rfl

/-- A lexeme that does not reach a closing parenthesis is the same whatever follows it. -/
theorem sealed_lexemeAt (c : Char) : Sealed Prod.snd (lexemeAt c) := by
  have run (test : Char → Bool) (lexeme : Lexeme) :
      Sealed Prod.snd fun rest => (lexeme, runLength test rest) :=
    (sealed_runLength test).shaped lexeme
  unfold lexemeAt
  -- The first character tells the shape.
  split_ifs with word digit directive quoted space tab feed returned slash
  · exact run isWordChar .word
  · exact fun front rest other _ => numberAfter_append front rest other
  · exact run isWordChar .directive
  · exact (sealed_quotedLength c).shaped .string
  · exact run (· == ' ') .spaces
  · exact run (· == '\t') .tabs
  · exact fun _ _ _ _ => rfl
  · exact sealed_lineBreak
  · rw [beq_iff_eq.mp slash]
    exact sealed_slash
  · exact fun front rest other _ => signOrUnknown_append c front rest other

/-- A closing parenthesis is a lexeme of its own. -/
theorem lexemeAt_rightParen (rest : List Char) : lexemeAt ')' rest = (.sign .rightParen, 0) := by
  have shape : lexemeAt ')' rest = signOrUnknown ')' rest := rfl
  rw [shape, signOrUnknown]
  cases found : Sign.longest? (')' :: rest) with
  | none =>
    have one : Sign.ofSpelling? [')'] = some .rightParen := rfl
    simp [Sign.longest?, one] at found
  | some mark =>
    -- Whatever is found is spelled with the parenthesis first.
    obtain ⟨length, spelled⟩ := Sign.exists_spelling_of_longest? found
    have solid := mark.length_spelling_pos
    have first : mark.spelling.head? = some ')' := by
      cases length with
      | zero => simp [spelled] at solid
      | succ length => rw [spelled, List.take_succ_cons, List.head?_cons]
    rw [mark.spelling_rightParen.2 first]
    rfl

/-- The token that is cut from a text with the characters of a lexeme. -/
def Token.cut (lexeme : Lexeme) (continued : Bool) (start : Nat) (taken : List Char) : Token :=
  ⟨lexeme.kind (String.ofList taken) continued, String.ofList taken, start⟩

/-- The first lexeme becomes the first token, and the characters after it become the others. -/
theorem tokensFrom_of_lexeme {c : Char} {rest : List Char} {lexeme : Lexeme} {length : Nat}
    (found : lexemeAt c rest = (lexeme, length)) (continued : Bool) (start : Nat) :
    tokensFrom continued start (c :: rest)
      = Token.cut lexeme continued start (c :: rest.take length)
        :: tokensFrom (Token.cut lexeme continued start (c :: rest.take length)).continuesLine
          (Token.cut lexeme continued start (c :: rest.take length)).stop (rest.drop length) := by
  rw [tokensFrom, found]
  rfl

/-- Where tokens end before a closing parenthesis, that is the next token, and the tokens before it are the same whatever follows it. -/
theorem tokensFrom_of_rightParen {front back : List Token} {point : Token} {continued : Bool}
    {start : Nat} {chars rest : List Char}
    (scanned : tokensFrom continued start (chars ++ ')' :: rest) = front ++ point :: back)
    (read : (joinTexts front).toList = chars) :
    point.kind = .sign .rightParen ∧ back = tokensFrom false point.stop rest
      ∧ ∀ other, tokensFrom continued start (chars ++ ')' :: other)
          = front ++ point :: tokensFrom false point.stop other := by
  -- The induction is on the tokens before the parenthesis, whose texts are the characters before it.
  induction front generalizing continued start chars with
  | nil =>
    -- No tokens have no characters, so the parenthesis comes first.
    obtain rfl : chars = [] := by simpa [joinTexts] using read.symm
    have first (rest : List Char) : tokensFrom continued start (')' :: rest)
        = ⟨.sign .rightParen, ")", start⟩ :: tokensFrom false (start + 1) rest := by
      rw [tokensFrom, lexemeAt_rightParen]
      rfl
    rw [List.nil_append, List.nil_append, first, List.cons.injEq] at scanned
    obtain ⟨rfl, rfl⟩ := scanned
    exact ⟨rfl, rfl, first⟩
  | cons token front ih =>
    cases chars with
    | nil =>
      -- The first token would be the parenthesis, which is not among the characters.
      rw [List.nil_append, tokensFrom_of_lexeme (lexemeAt_rightParen rest), List.cons_append,
        List.cons.injEq] at scanned
      rw [joinTexts_cons, ← scanned.1] at read
      simp [Token.cut] at read
    | cons c chars =>
      -- The first lexeme ends before the parenthesis, as do all the characters of the tokens.
      obtain ⟨lexeme, length, shape⟩ : ∃ lexeme length,
          lexemeAt c (chars ++ ')' :: rest) = (lexeme, length) := ⟨_, _, rfl⟩
      rw [List.cons_append, tokensFrom_of_lexeme shape, List.cons_append,
        List.cons.injEq] at scanned
      obtain ⟨rfl, further⟩ := scanned
      have inside := (confined_lexemeAt c).within (chars ++ ')' :: rest)
      rw [shape] at inside
      have taken : (chars ++ ')' :: rest).take length ++ (joinTexts front).toList = chars := by
        simpa [joinTexts_cons, Token.cut] using read
      have short : length ≤ chars.length := by
        have lengths := congrArg List.length taken
        rw [List.length_append, List.length_take, Nat.min_eq_left inside] at lengths
        omega
      -- So the first lexeme is the same whatever follows the parenthesis.
      have sameShape (other : List Char) :
          lexemeAt c (chars ++ ')' :: other) = (lexeme, length) := by
        rw [← shape]
        refine sealed_lexemeAt c chars rest other ?_
        rw [shape]
        exact short
      -- The other tokens are read from the characters that it leaves.
      have readLater : (joinTexts front).toList = chars.drop length := by
        rw [List.take_append_of_le_length short] at taken
        conv_rhs at taken => rw [← List.take_append_drop length chars]
        exact List.append_cancel_left taken
      rw [List.take_append_of_le_length short, List.drop_append_of_le_length short] at further
      obtain ⟨kind, last, again⟩ := ih further readLater
      refine ⟨kind, last, fun other => ?_⟩
      rw [List.cons_append, tokensFrom_of_lexeme (sameShape other),
        List.take_append_of_le_length short, List.take_append_of_le_length short,
        List.drop_append_of_le_length short, again other, List.cons_append]

/-- The token as it is in a text in which something is put in before it. -/
def Token.later (count : Nat) (token : Token) : Token :=
  { token with start := token.start + count }

/-- Further on in a text, characters are scanned as the same tokens, each as much further on. -/
theorem tokensFrom_add (continued : Bool) (start count : Nat) (chars : List Char) :
    tokensFrom continued (start + count) chars
      = (tokensFrom continued start chars).map (Token.later count) := by
  induction continued, start, chars using tokensFrom.induct with
  | case1 continued start =>
    rw [tokensFrom, tokensFrom]
    rfl
  | case2 continued start c rest lexeme length shape text token ih =>
    rw [tokensFrom_of_lexeme shape, tokensFrom_of_lexeme shape, List.map_cons]
    -- The tokens behind start where this one stops, which is as much further on.
    refine congrArg _ (Eq.trans ?_ ih)
    have stop : (Token.cut lexeme continued (start + count) (c :: rest.take length)).stop
        = token.stop + count := Nat.add_right_comm _ _ _
    rw [stop]
    rfl

/-- A line break reaches no further than other line breaks that follow it. -/
theorem exists_lineBreak {c : Char} (feeds : c = '\n' ∨ c = '\r') (breaks : List Char)
    {rest : List Char} (apart : rest.head? ≠ some '\n') :
    ∃ more, lexemeAt c (breaks ++ rest) = (.lineBreak, more) ∧ more ≤ breaks.length := by
  -- A line feed stands alone, and a carriage return takes along a line feed that is among the
  -- breaks.
  rcases feeds with rfl | rfl
  · exact ⟨0, rfl, Nat.zero_le _⟩
  · refine ⟨_, rfl, ?_⟩
    cases breaks with
    | nil => simp [apart]
    | cons c breaks =>
      rw [List.length_cons]
      split <;> omega

/-- Line breaks after a token that does not continue its line end the statement one by one. -/
theorem tokensFrom_breaks {breaks rest : List Char} (feeds : ∀ c ∈ breaks, c = '\n' ∨ c = '\r')
    (apart : rest.head? ≠ some '\n') (start : Nat) :
    ∃ gap, tokensFrom false start (breaks ++ rest)
        = gap ++ tokensFrom false (start + (joinTexts gap).utf8ByteSize) rest
      ∧ (∀ token ∈ gap, token.kind = .hardBreak) ∧ (joinTexts gap).toList = breaks := by
  -- A carriage return takes a line feed after it along, so the induction is on the length.
  generalize length : breaks.length = count
  induction count using Nat.strong_induction_on generalizing breaks start with
  | _ count ih =>
    cases breaks with
    | nil => exact ⟨[], rfl, by simp, rfl⟩
    | cons c breaks =>
      obtain ⟨more, shape, within⟩ := exists_lineBreak (feeds c (by simp)) breaks apart
      have feedsLater : ∀ other ∈ breaks.drop more, other = '\n' ∨ other = '\r' :=
        fun other member => feeds other (List.mem_cons_of_mem c (List.mem_of_mem_drop member))
      have fewer : (breaks.drop more).length < count := by
        rw [← length, List.length_drop, List.length_cons]
        omega
      -- The first break becomes a token after which the line is not continued either.
      let token := Token.cut .lineBreak false start (c :: breaks.take more)
      obtain ⟨gap, scanned, isBreak, read⟩ := ih _ fewer feedsLater token.stop rfl
      refine ⟨token :: gap, ?_, ?_, ?_⟩
      · rw [List.cons_append, tokensFrom_of_lexeme shape, List.take_append_of_le_length within,
          List.drop_append_of_le_length within, List.cons_append, joinTexts_cons,
          String.utf8ByteSize_append, ← Nat.add_assoc]
        exact congrArg _ scanned
      · intro other member
        rcases List.mem_cons.mp member with rfl | further
        · rfl
        · exact isBreak other further
      · rw [joinTexts_cons, String.toList_append, read]
        simp [token, Token.cut]

/-- A text is determined by what begins with it and its length. -/
theorem eq_of_append_eq {left right front back : List Char} (same : front ++ back = left ++ right)
    (length : utf8Len front = utf8Len left) : front = left := by
  -- The longer of the two has nothing more, as their lengths agree.
  rcases List.append_eq_append_iff.mp same with ⟨more, rfl, -⟩ | ⟨more, rfl, -⟩
  · rw [utf8Len_append] at length
    have none : utf8Len more = 0 := by omega
    rw [utf8Len_eq_zero.mp none, List.append_nil]
  · rw [utf8Len_append] at length
    have none : utf8Len more = 0 := by omega
    rw [utf8Len_eq_zero.mp none, List.append_nil]

/-- Line breaks put in after a closing parenthesis become tokens that end the statement, and leave the other tokens as they are, unless another one followed already. -/
theorem tokenize_insert {left breaks right : String} {front back : List Token} {point : Token}
    (scanned : tokenize (left ++ ")" ++ right) = front ++ point :: back)
    (place : point.start = left.utf8ByteSize)
    (feeds : ∀ c ∈ breaks.toList, c = '\n' ∨ c = '\r')
    (apart : ∀ token ∈ back.head?, token.kind ≠ .hardBreak) :
    point.kind = .sign .rightParen ∧ ∃ gap,
      tokenize (left ++ ")" ++ breaks ++ right)
          = front ++ point :: (gap ++ back.map (Token.later breaks.utf8ByteSize))
        ∧ (∀ token ∈ gap, token.kind = .hardBreak) ∧ joinTexts gap = breaks := by
  -- Both texts are what comes before the parenthesis, and differ in what follows it.
  have text : (left ++ ")" ++ right).toList = left.toList ++ ')' :: right.toList := by
    simp [String.toList_append]
  have loosened : (left ++ ")" ++ breaks ++ right).toList
      = left.toList ++ ')' :: (breaks.toList ++ right.toList) := by
    simp [String.toList_append]
  have adjoining : Adjoining 0 (tokenize (left ++ ")" ++ right)) := adjoining_tokensFrom ..
  have joined := joinTexts_tokenize (left ++ ")" ++ right)
  rw [scanned] at adjoining joined
  -- The tokens before the parenthesis have the text that stands before it, as they are as long.
  have read : (joinTexts front).toList = left.toList := by
    have start := adjoining.start_eq
    have chars := congrArg String.toList joined
    rw [joinTexts_append, String.toList_append, text] at chars
    refine eq_of_append_eq chars ?_
    rw [← String.utf8ByteSize_ofList, ← String.utf8ByteSize_ofList, String.ofList_toList,
      String.ofList_toList]
    omega
  rw [tokenize, text] at scanned
  obtain ⟨kind, rfl, again⟩ := tokensFrom_of_rightParen scanned read
  -- A line feed behind the parenthesis would have been a token that ends the statement.
  have noFeed : right.toList.head? ≠ some '\n' := by
    intro feed
    obtain ⟨rest, chars⟩ := List.head?_eq_some_iff.mp feed
    have first := apart (Token.cut .lineBreak false point.stop ['\n'])
    rw [chars, tokensFrom_of_lexeme (show lexemeAt '\n' rest = (.lineBreak, 0) from rfl)] at first
    exact first (by simp) rfl
  obtain ⟨gap, further, isBreak, gapText⟩ := tokensFrom_breaks feeds noFeed point.stop
  have same : joinTexts gap = breaks := String.toList_inj.mp gapText
  refine ⟨kind, gap, ?_, isBreak, same⟩
  rw [tokenize, loosened, again, further, tokensFrom_add, same]

end Dxl
