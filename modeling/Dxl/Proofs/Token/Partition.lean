import Mathlib
import Dxl.Token.Scan

/-! Partition: the tokens of a source text cover it without gaps, and only the last of them is empty. -/

namespace Dxl

/-- Tokens follow one another without gaps from an offset onwards. -/
def Adjoining (start : Nat) : List Token → Prop
  | [] => True
  | token :: rest => token.start = start ∧ Adjoining token.stop rest

/-- A lexeme is never mistaken for the end of the text. -/
theorem Lexeme.kind_ne_endOfText (lexeme : Lexeme) (text : String) (continued : Bool) :
    lexeme.kind text continued ≠ .endOfText := by
  -- Words are reserved or names, and each other shape has kinds of its own.
  cases lexeme with
  | word | directive =>
    simp only [Lexeme.kind]
    split <;> simp
  | lineBreak => cases continued <;> simp [Lexeme.kind]
  | _ => simp [Lexeme.kind]

/-- The scanned tokens, up to the empty one at the end, are nonempty, adjoin each other and make up the characters. -/
theorem tokensFrom_partition (continued : Bool) (start : Nat) (chars : List Char) :
    ∃ tokens stop, tokensFrom continued start chars = tokens ++ [⟨.endOfText, "", stop⟩]
      ∧ (∀ token ∈ tokens, token.kind ≠ .endOfText ∧ token.text ≠ "")
      ∧ Adjoining start tokens ∧ joinTexts tokens = String.ofList chars := by
  -- Every round takes the first character along with the rest of its lexeme.
  induction continued, start, chars using tokensFrom.induct with
  | case1 continued start => exact ⟨[], start, by rw [tokensFrom]; rfl, by simp, trivial, rfl⟩
  | case2 continued start c rest lexeme more shape text token ih =>
    obtain ⟨tokens, stop, scanned, proper, adjoining, joined⟩ := ih
    refine ⟨token :: tokens, stop, ?_, ?_, ⟨rfl, adjoining⟩, ?_⟩
    · rw [tokensFrom, shape]
      simp only [List.cons_append]
      rw [← scanned]
    · intro other member
      rcases List.mem_cons.mp member with same | further
      · subst same
        exact ⟨Lexeme.kind_ne_endOfText _ _ _, by simp [token, text]⟩
      · exact proper other further
    · rw [joinTexts, List.map_cons, String.join_cons, ← joinTexts, joined, ← String.ofList_append,
        List.cons_append, List.take_append_drop]

/-- Scanned tokens, the empty one at the end included, follow one another without gaps. -/
theorem adjoining_tokensFrom (continued : Bool) (start : Nat) (chars : List Char) :
    Adjoining start (tokensFrom continued start chars) := by
  -- The next round goes on where the token of this one stops.
  induction continued, start, chars using tokensFrom.induct with
  | case1 continued start =>
    rw [tokensFrom]
    exact ⟨rfl, trivial⟩
  | case2 continued start c rest lexeme more shape text token ih =>
    rw [tokensFrom, shape]
    exact ⟨rfl, ih⟩

/-- Joining the texts of a row of tokens begins with the first of them. -/
theorem joinTexts_cons (token : Token) (rest : List Token) :
    joinTexts (token :: rest) = token.text ++ joinTexts rest := by
  rw [joinTexts, List.map_cons, String.join_cons, ← joinTexts]

/-- Two rows of tokens are joined one after the other. -/
theorem joinTexts_append (left right : List Token) :
    joinTexts (left ++ right) = joinTexts left ++ joinTexts right := by
  induction left with
  | nil => exact String.empty_append.symm
  | cons token rest ih => rw [List.cons_append, joinTexts_cons, joinTexts_cons, ih, String.append_assoc]

/-- A token among adjoining ones begins right after the texts before it. -/
theorem Adjoining.start_eq {start : Nat} {before after : List Token} {token : Token}
    (adjoining : Adjoining start (before ++ token :: after)) :
    token.start = start + (joinTexts before).utf8ByteSize := by
  induction before generalizing start with
  | nil => exact adjoining.1
  | cons first rest ih =>
    obtain ⟨rfl, further⟩ := adjoining
    rw [ih further, Token.stop, joinTexts_cons, String.utf8ByteSize_append, Nat.add_assoc]

/-- Tokens fall apart in only one way at a token that is not empty. -/
theorem Adjoining.split_unique {start : Nat} {front other back behind : List Token}
    {point mark : Token} (adjoining : Adjoining start (front ++ point :: back))
    (same : front ++ point :: back = other ++ mark :: behind) (solid : point.text ≠ "")
    (solidMark : mark.text ≠ "") (starts : point.start = mark.start) : back = behind := by
  have begins := adjoining.start_eq
  have beginsMark := (same ▸ adjoining).start_eq
  have length {token : Token} (solid : token.text ≠ "") : 0 < token.text.utf8ByteSize :=
    Nat.pos_of_ne_zero fun none => solid (String.utf8ByteSize_eq_zero_iff.mp none)
  have pointLength := length solid
  have markLength := length solidMark
  -- If one came before the other, it would start earlier.
  rcases List.append_eq_append_iff.mp same with ⟨more, rfl, rest⟩ | ⟨more, rfl, rest⟩
  · cases more with
    | nil => exact (List.cons.inj rest).2
    | cons token more =>
      obtain ⟨rfl, -⟩ := List.cons.inj rest
      rw [joinTexts_append, joinTexts_cons, String.utf8ByteSize_append,
        String.utf8ByteSize_append] at beginsMark
      omega
  · cases more with
    | nil => exact (List.cons.inj rest).2.symm
    | cons token more =>
      obtain ⟨rfl, -⟩ := List.cons.inj rest
      rw [joinTexts_append, joinTexts_cons, String.utf8ByteSize_append,
        String.utf8ByteSize_append] at begins
      omega

/-- The tokens of a source text make it up. -/
theorem joinTexts_tokenize (text : String) : joinTexts (tokenize text) = text := by
  obtain ⟨tokens, stop, scanned, -, -, parts⟩ := tokensFrom_partition false 0 text.toList
  rw [tokenize, scanned, joinTexts_append, parts, String.ofList_toList, joinTexts_cons]
  exact String.append_empty

/-- The part of a text between two of its positions is what stands there. -/
theorem extract_append_append (before middle after : String)
    {opening closing : (before ++ (middle ++ after)).Pos}
    (opens : opening.offset.byteIdx = before.utf8ByteSize)
    (closes : closing.offset.byteIdx = before.utf8ByteSize + middle.utf8ByteSize) :
    (before ++ (middle ++ after)).extract opening closing = middle := by
  rw [← String.toByteArray_inj, String.toByteArray_extract, opens, closes,
    String.toByteArray_append, String.toByteArray_append]
  simp only [← String.size_toByteArray]
  have shifted := @ByteArray.extract_append_size_add before.toByteArray
    (middle.toByteArray ++ after.toByteArray) 0 middle.toByteArray.size
  rw [Nat.add_zero] at shifted
  rw [shifted, ByteArray.extract_append_eq_left rfl]

/-- What stands between two others in a text is cut out of it at character boundaries. -/
theorem exists_extract {text before middle after : String} {start stop : Nat}
    (split : text = before ++ (middle ++ after)) (starts : start = before.utf8ByteSize)
    (stops : stop = before.utf8ByteSize + middle.utf8ByteSize) :
    ∃ (opens : (String.Pos.Raw.mk start).IsValid text)
      (closes : (String.Pos.Raw.mk stop).IsValid text),
      text.extract ⟨⟨start⟩, opens⟩ ⟨⟨stop⟩, closes⟩ = middle := by
  subst split
  have opens : (String.Pos.Raw.mk start).IsValid (before ++ (middle ++ after)) :=
    String.Pos.Raw.isValid_iff_exists_append.mpr ⟨_, _, rfl, by simp [String.rawEndPos, starts]⟩
  have closes : (String.Pos.Raw.mk stop).IsValid (before ++ (middle ++ after)) :=
    String.Pos.Raw.isValid_iff_exists_append.mpr
      ⟨before ++ middle, after, (String.append_assoc ..).symm, by simp [String.rawEndPos, stops]⟩
  exact ⟨opens, closes, extract_append_append _ _ _ starts stops⟩

/-- A token among adjoining ones is cut out of their joined texts at character boundaries. -/
theorem Adjoining.extract_eq {text : String} {tokens : List Token} {token : Token}
    (adjoining : Adjoining 0 tokens) (joined : joinTexts tokens = text) (member : token ∈ tokens) :
    ∃ (opens : (String.Pos.Raw.mk token.start).IsValid text)
      (closes : (String.Pos.Raw.mk token.stop).IsValid text),
      text.extract ⟨⟨token.start⟩, opens⟩ ⟨⟨token.stop⟩, closes⟩ = token.text := by
  -- The texts of the other tokens stand before and after it.
  obtain ⟨before, after, rfl⟩ := List.append_of_mem member
  have start := adjoining.start_eq
  rw [Nat.zero_add] at start
  rw [joinTexts_append, joinTexts_cons] at joined
  exact exists_extract joined.symm start (by rw [Token.stop, start])

/-- Scanning a source text loses nothing: its tokens adjoin each other from the start to the end of the text, each of them is cut out of the text at character boundaries, and the last one, and no other, is the empty token at the end. -/
theorem tokenize_partition (text : String) :
    ∃ tokens, tokenize text = tokens ++ [⟨.endOfText, "", text.utf8ByteSize⟩]
      ∧ Adjoining 0 (tokenize text)
      ∧ (∀ token ∈ tokens, token.kind ≠ .endOfText ∧ token.text ≠ "")
      ∧ (∀ token ∈ tokenize text, ∃ (opens : (String.Pos.Raw.mk token.start).IsValid text)
          (closes : (String.Pos.Raw.mk token.stop).IsValid text),
          text.extract ⟨⟨token.start⟩, opens⟩ ⟨⟨token.stop⟩, closes⟩ = token.text)
      ∧ joinTexts (tokenize text) = text := by
  obtain ⟨tokens, stop, scanned, proper, -, parts⟩ := tokensFrom_partition false 0 text.toList
  have adjoining : Adjoining 0 (tokenize text) := adjoining_tokensFrom false 0 text.toList
  rw [String.ofList_toList] at parts
  have joined := joinTexts_tokenize text
  -- The token at the end begins after the texts of all others, which make up the whole text.
  have final : stop = text.utf8ByteSize := by
    rw [tokenize, scanned] at adjoining
    have := adjoining.start_eq
    rwa [Nat.zero_add, parts] at this
  exact ⟨tokens, final ▸ scanned, adjoining, proper,
    fun token member => adjoining.extract_eq joined member, joined⟩

end Dxl
