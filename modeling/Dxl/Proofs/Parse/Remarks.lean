import Dxl.Proofs.Grammar.Telling
import Dxl.Proofs.Parse.Lossless

/-! Remarks: each of them points at the token of the source text that it tells of. -/

namespace Dxl

/-- A lexeme is a reserved word only if its text is spelled like it. -/
theorem Lexeme.spelling_of_kind {lexeme : Lexeme} {text : String} {continued : Bool} {word : Keyword}
    (same : lexeme.kind text continued = .keyword word) : text = word.spelling := by
  cases lexeme with
  | word | directive =>
    -- What begins like a word may be reserved, and is a name otherwise.
    simp only [Lexeme.kind] at same
    split at same
    · rename_i spelled
      cases same
      rw [Keyword.ofSpelling?] at spelled
      have alike := List.find?_some spelled
      exact (beq_iff_eq.mp alike).symm
    · cases same
  | lineBreak => cases continued <;> cases same
  | _ => cases same

/-- Every token of a source text is spelled like the reserved word that it is. -/
theorem spelled_tokensFrom (continued : Bool) (start : Nat) (chars : List Char) :
    ∀ token ∈ tokensFrom continued start chars, token.Spelled := by
  -- The induction goes from token to token.
  induction continued, start, chars using tokensFrom.induct with
  | case1 continued start =>
    rw [tokensFrom]
    intro token member word kind
    rw [List.mem_singleton.mp member] at kind
    cases kind
  | case2 continued start c rest lexeme more shape text token ih =>
    rw [tokensFrom, shape]
    intro other member
    rcases List.mem_cons.mp member with rfl | further
    · exact fun word kind => Lexeme.spelling_of_kind kind
    · exact ih other further

/-- No token of a source text begins after its end. -/
theorem start_le_of_mem_tokenize {text : String} {token : Token} (member : token ∈ tokenize text) :
    token.start ≤ text.utf8ByteSize := by
  have adjoining : Adjoining 0 (tokenize text) := adjoining_tokensFrom ..
  have joined := joinTexts_tokenize text
  obtain ⟨before, after, split⟩ := List.append_of_mem member
  rw [split] at adjoining joined
  have start := adjoining.start_eq
  rw [joinTexts_append] at joined
  have size := congrArg String.utf8ByteSize joined
  rw [String.utf8ByteSize_append] at size
  omega

/-- Remarks point at the tokens that they tell of: they are made in the order of their offsets, all of which lie inside of the source text, and at each offset a proper token begins whose kind the message of an error names, or whose text that of a warning, which is a qualifier. -/
theorem parseText_remarks {text : String} {parsed : Parsed} (parses : parseText text = .ok parsed) :
    parsed.report.remarks.Pairwise (fun earlier later => earlier.offset ≤ later.offset)
      ∧ ∀ remark ∈ parsed.report.remarks, remark.offset ≤ text.utf8ByteSize
        ∧ ∃ token ∈ tokenize text, token.kind.isTrivia = false ∧ token.start = remark.offset
          ∧ remark.TellsOf token := by
  obtain ⟨growth, program, rfl⟩ := exists_growth_of_parseText parses
  -- Nothing was told before the first token is read.
  have initial : (Growth.initial (tokenize text)).Told (tokenize text) :=
    ⟨⟨List.suffix_refl _, adjoining_tokensFrom false 0 text.toList⟩, .nil, nofun, nofun⟩
  have told : growth.Told (tokenize text) :=
    (Growth.Told.kept (spelled_tokensFrom false 0 text.toList) _).grow_rule program initial
  rw [Growth.report_eatTrivia]
  refine ⟨told.ordered, fun remark member => ?_⟩
  obtain ⟨token, inside, proper, starts, tells⟩ := told.told remark member
  exact ⟨starts ▸ start_le_of_mem_tokenize inside, token, inside, proper, starts, tells⟩

/-- The qualifier is warned of at the beginning, and the bracket is named where an expression was needed. -/
theorem parseText_remarks_qualified :
    ∃ parsed, parseText "const a = )" = .ok parsed
      ∧ parsed.report.remarks.map Remark.offset = [0, 10]
      ∧ parsed.report.remarks.Pairwise (fun earlier later => earlier.offset ≤ later.offset)
      ∧ ∀ remark ∈ parsed.report.remarks, remark.offset ≤ "const a = )".utf8ByteSize
        ∧ ∃ token ∈ tokenize "const a = )", token.kind.isTrivia = false
          ∧ token.start = remark.offset ∧ remark.TellsOf token := by
  have remarked : (parseText "const a = )").toOption.any
      (fun parsed => parsed.report.remarks.map Remark.offset == [0, 10]) = true := by
    decide +kernel
  obtain ⟨parsed, parses, remarked⟩ := exists_ok_of_any remarked
  simp only [beq_iff_eq] at remarked
  exact ⟨parsed, parses, remarked, parseText_remarks parses⟩

end Dxl
