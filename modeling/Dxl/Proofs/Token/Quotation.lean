import Dxl.Proofs.Token.Standalone
import Dxl.View.Parts

/-! Quotations: what a string holds between its quote marks, the second of which may be missing. -/

namespace Dxl

/-- What a quoted text holds behind its opening mark, and whether a closing mark follows it. -/
def quotedContents (mark : Char) : List Char → List Char × Bool
  | [] => ([], false)
  | '\\' :: [] => (['\\'], false)
  | '\\' :: c :: rest => ('\\' :: c :: (quotedContents mark rest).1, (quotedContents mark rest).2)
  | c :: rest =>
    if c == mark then ([], true) else (c :: (quotedContents mark rest).1, (quotedContents mark rest).2)

/-- A character that escapes nothing is held by a quoted text unless it is the mark that closes it. -/
theorem quotedContents_cons {mark c : Char} (escapes : c ≠ '\\') (rest : List Char) :
    quotedContents mark (c :: rest)
      = if c == mark then ([], true)
        else (c :: (quotedContents mark rest).1, (quotedContents mark rest).2) := by
  -- Both other equations are for a backslash in front.
  rw [quotedContents]
  · exact fun isBackslash _ => escapes isBackslash
  · exact fun _ _ isBackslash _ => escapes isBackslash

/-- A quoted text reaches to the end of what it holds, and over the closing mark if there is one. -/
theorem take_quotedLength (mark : Char) (chars : List Char) :
    chars.take (quotedLength mark chars)
      = (quotedContents mark chars).1 ++ if (quotedContents mark chars).2 then [mark] else [] := by
  -- Both go on in the same way after each character or two.
  induction chars using quotedLength.induct mark with
  | case1 => rfl
  | case2 => rfl
  | case3 c rest ih =>
    rw [quotedLength, Nat.add_comm, List.take_succ_cons, List.take_succ_cons, ih]
    rfl
  -- What closes the text is the mark itself.
  | case4 c rest single escaped closes =>
    have escapes := ne_backslash single escaped
    rw [quotedLength_cons escapes, quotedContents_cons escapes, if_pos closes, if_pos closes,
      beq_iff_eq.mp closes]
    rfl
  | case5 c rest single escaped goesOn ih =>
    have escapes := ne_backslash single escaped
    rw [quotedLength_cons escapes, quotedContents_cons escapes, if_neg goesOn, if_neg goesOn,
      Nat.add_comm, List.take_succ_cons, ih]
    rfl

/-- What a quoted text holds, but for a quote mark at its end. -/
def trimQuote (chars : List Char) : List Char :=
  if chars.getLast?.any isQuoteMark then chars.dropLast else chars

/-- Trimming changes what ends in a quote mark, and nothing else. -/
theorem trimQuote_eq_self_iff {chars : List Char} :
    trimQuote chars = chars ↔ chars.getLast?.any isQuoteMark = false := by
  unfold trimQuote
  split
  · rename_i ends
    -- Without its last character a text that has one is shorter.
    have nonempty : chars ≠ [] := by
      rintro rfl
      cases ends
    have shorter : chars.dropLast ≠ chars := fun same => by
      have length := congrArg List.length same
      rw [List.length_dropLast] at length
      have := List.length_pos_iff.mpr nonempty
      omega
    simp [ends, shorter]
  · simp_all

/-- Without its marks, a string is what it holds, but for a quote mark at its end if it is not closed. -/
theorem unquote_quoted {mark : Char} {body : List Char} (isMark : isQuoteMark mark = true)
    (whole : quotedLength mark body = body.length) :
    unquote (String.ofList (mark :: body))
      = String.ofList (if (quotedContents mark body).2 then (quotedContents mark body).1
          else trimQuote (quotedContents mark body).1) := by
  have parts := take_quotedLength mark body
  rw [whole, List.take_length] at parts
  -- The opening mark is taken off in any case.
  have trimmed : unquote (String.ofList (mark :: body)) = String.ofList (trimQuote body) := by
    simp [unquote, isMark, trimQuote]
  rw [trimmed]
  generalize quotedContents mark body = read at parts ⊢
  obtain ⟨contents, closed⟩ := read
  subst parts
  cases closed with
  | true =>
    -- The mark that closes the string is its last character.
    simp [trimQuote, isMark]
  -- Without a closing mark, what the string holds is all of it, so its end is trimmed as before.
  | false => simp

/-- A lexeme that is a string begins with a quote mark, and reaches as far as the mark quotes. -/
theorem quoted_of_lexemeAt {c : Char} {rest : List Char} {length : Nat}
    (found : lexemeAt c rest = (.string, length)) :
    isQuoteMark c = true ∧ length = quotedLength c rest := by
  -- Neither numbers nor signs are strings.
  have noNumber (rest : List Char) : (numberAfter rest).1 ≠ .string := by
    unfold numberAfter
    dsimp only
    split
    · simp
    · split <;> simp
  have noSign : (signOrUnknown c rest).1 ≠ .string := by
    unfold signOrUnknown
    split <;> simp
  -- All shapes are tried in turn, and only that of a quote mark is a string.
  unfold lexemeAt at found
  split_ifs at found with word digit directive quoted space tab feed returned followed slash
  · cases found
  · exact absurd (congrArg Prod.fst found) (noNumber rest)
  · cases found
  · exact ⟨quoted, (congrArg Prod.snd found).symm⟩
  · cases found
  · cases found
  · cases found
  · cases found
  · cases found
  · split at found
    · cases found
    · exact absurd (congrArg Prod.fst found) noSign
  · exact absurd (congrArg Prod.fst found) noSign

/-- A text is a quote mark and what the mark quotes, up to the end. -/
def IsQuoted (text : String) : Prop :=
  ∃ mark body, text = String.ofList (mark :: body) ∧ isQuoteMark mark = true
    ∧ quotedLength mark body = body.length

/-- A scanned string is quoted. -/
theorem isQuoted_of_mem_tokenize {text : String} {token : Token}
    (member : token ∈ tokenize text) (isString : token.kind = .string) : IsQuoted token.text := by
  obtain ⟨c, rest, lexeme, length, continued, found, spelled, kind⟩ :=
    exists_lexeme_of_mem_tokensFrom member (by simp [isString])
  -- No other lexeme has the kind of a string.
  obtain rfl : lexeme = .string := by
    rw [isString] at kind
    cases lexeme with
    | word | directive =>
      simp only [Lexeme.kind] at kind
      split at kind <;> cases kind
    | lineBreak => cases continued <;> cases kind
    | string => rfl
    | _ => cases kind
  obtain ⟨isMark, same⟩ := quoted_of_lexemeAt found
  refine ⟨c, rest.take length, spelled, isMark, ?_⟩
  -- The characters of the token alone are quoted as far as they were in the text.
  have confined := confined_quotedLength c
  have within : quotedLength c rest ≤ rest.length := confined.within rest
  rw [confined.alone rest length (Nat.le_of_eq same.symm), List.length_take, same,
    Nat.min_eq_left within]

end Dxl
