import Dxl.Proofs.Token.Rewriting

/-! Mirrors: the tokens of a text that is written with another line ending are those of the text itself. -/

namespace Dxl

open String

/-- A token is mirrored by one of the same kind with a rewritten text, whose ends belong together with its own. -/
structure Token.Mirrors (meets : Nat → Nat → Prop) (rewrite : String → String)
    (token counterpart : Token) : Prop where
  kind : counterpart.kind = token.kind
  text : counterpart.text = rewrite token.text
  namesType : counterpart.namesType = token.namesType
  start : meets token.start counterpart.start
  stop : meets token.stop counterpart.stop

/-- Only words are told apart by what they are. -/
def Lexeme.isWord : Lexeme → Bool
  | .word | .directive => true
  | _ => false

/-- The kind of a lexeme that is no word does not depend on its text. -/
theorem Lexeme.kind_eq {lexeme : Lexeme} (other : lexeme.isWord = false) (text rewritten : String)
    (continued : Bool) :
    lexeme.kind rewritten continued = lexeme.kind text continued
      ∧ (lexeme.kind text continued).namesType rewritten
        = (lexeme.kind text continued).namesType text := by
  cases lexeme with
  | word | directive => cases other
  | lineBreak => cases continued <;> exact ⟨rfl, rfl⟩
  | _ => exact ⟨rfl, rfl⟩

/-- The token that a lexeme becomes, whose characters come after others. -/
def Token.ofChars (lexeme : Lexeme) (continued : Bool) (before taken : List Char) : Token :=
  ⟨lexeme.kind (String.ofList taken) continued, String.ofList taken, utf8Len before⟩

/-- A token stops after its characters. -/
theorem Token.stop_ofChars (lexeme : Lexeme) (continued : Bool) (before taken : List Char) :
    (Token.ofChars lexeme continued before taken).stop = utf8Len (before ++ taken) := by
  rw [Token.stop, Token.ofChars, String.utf8ByteSize_ofList, utf8Len_append]

/-- The tokens of some characters are that of the first lexeme and those of the characters after it. -/
theorem tokensFrom_cons {c : Char} {rest : List Char} {lexeme : Lexeme} {length : Nat}
    (found : lexemeAt c rest = (lexeme, length)) (continued : Bool) (before : List Char) :
    tokensFrom continued (utf8Len before) (c :: rest)
      = Token.ofChars lexeme continued before (c :: rest.take length)
        :: tokensFrom (Token.ofChars lexeme continued before (c :: rest.take length)).continuesLine
          (utf8Len (before ++ c :: rest.take length)) (rest.drop length) := by
  rw [tokensFrom, found, ← Token.stop_ofChars lexeme continued]
  rfl

namespace LineEnding

variable (ending : LineEnding) {c : Char} {rest : List Char}

/-- A hyphen stands last just if it did before. -/
theorem getLast?_restyle (text : List Char) :
    ((ending.restyle text).getLast? == some '-') = (text.getLast? == some '-') := by
  cases text using List.reverseRecOn with
  | nil => rfl
  | append_singleton front c =>
    rw [restyle_append, List.getLast?_append, List.getLast?_concat]
    -- The last character is kept, or is a line feed, and no ending ends in a hyphen.
    by_cases isFeed : c = '\n'
    · subst isFeed
      cases ending <;> rfl
    · rw [ending.restyle_cons isFeed]
      rfl

/-- A line ending is one line break. -/
theorem lexemeAt_chars (next : rest.head? ≠ some '\n') :
    ∃ tail, ending.chars = '\r' :: tail
      ∧ lexemeAt '\r' (tail ++ rest) = (.lineBreak, tail.length) := by
  cases ending with
  | returnFeed => exact ⟨_, rfl, rfl⟩
  | returnOnly =>
    refine ⟨[], rfl, ?_⟩
    rw [List.nil_append, show lexemeAt '\r' rest
      = (.lineBreak, if rest.head? == some '\n' then 1 else 0) from rfl, if_neg (by simpa using next)]
    rfl

/-- The first lexeme has the same shape once line feeds are replaced, and its text is that with line feeds replaced. -/
theorem exists_lexemeAt (notReturn : c ≠ '\r') {lexeme : Lexeme} {length : Nat}
    (found : lexemeAt c rest = (lexeme, length)) :
    ∃ first others other, ending.restyle (c :: rest) = first :: others
      ∧ lexemeAt first others = (lexeme, other)
      ∧ first :: others.take other = ending.restyle (c :: rest.take length)
      ∧ others.drop other = ending.restyle (rest.drop length)
      ∧ ('\n' ∈ c :: rest.take length → lexeme.isWord = false) := by
  by_cases isFeed : c = '\n'
  · -- A line ending is one token, however many characters it has.
    subst isFeed
    obtain ⟨rfl, rfl⟩ : Lexeme.lineBreak = lexeme ∧ 0 = length := by
      rw [show lexemeAt '\n' rest = (.lineBreak, 0) from rfl, Prod.mk.injEq] at found
      exact found
    obtain ⟨tail, same, again⟩ := ending.lexemeAt_chars (ending.head?_restyle rest)
    refine ⟨'\r', tail ++ ending.restyle rest, tail.length, ?_, again, ?_, ?_, fun _ => rfl⟩
    · rw [restyle_lineFeed, same, List.cons_append]
    · rw [List.take_left, List.take_zero, restyle_lineFeed, same, restyle_nil, List.append_nil]
    · rw [List.drop_left, List.drop_zero]
  · have finds := ending.finds_lexemeAt isFeed notReturn rest
    rw [found] at finds
    cases again : lexemeAt c (ending.restyle rest) with
    | mk shape other =>
      rw [again] at finds
      obtain rfl : shape = lexeme := finds.shape
      obtain ⟨taken, left⟩ := finds.reaches.split
      refine ⟨c, ending.restyle rest, other, ending.restyle_cons isFeed, again, ?_, left,
        fun feed => ?_⟩
      · rw [ending.restyle_cons isFeed]
        exact congrArg _ taken
      · have inside : '\n' ∈ rest.take length :=
          (List.mem_cons.mp feed).resolve_left (Ne.symm isFeed)
        rcases finds.plain inside with isString | isComment
        · exact congrArg Lexeme.isWord isString
        · exact congrArg Lexeme.isWord isComment

/-- A token is mirrored by that of its characters with line feeds replaced, which continues its line just if it does. -/
theorem mirrors_ofChars {lexeme : Lexeme} {taken : List Char}
    (plain : '\n' ∈ taken → lexeme.isWord = false) (continued : Bool) (before after : List Char) :
    (Token.ofChars lexeme continued before taken).Mirrors
        (ending.Meets (before ++ (taken ++ after))) ending.rewrite
        (Token.ofChars lexeme continued (ending.restyle before) (ending.restyle taken))
      ∧ (Token.ofChars lexeme continued (ending.restyle before) (ending.restyle taken)).continuesLine
        = (Token.ofChars lexeme continued before taken).continuesLine := by
  have text : String.ofList (ending.restyle taken) = ending.rewrite (String.ofList taken) := by
    rw [rewrite, String.toList_ofList]
  obtain ⟨kind, names⟩ : lexeme.kind (String.ofList (ending.restyle taken)) continued
        = lexeme.kind (String.ofList taken) continued
      ∧ (lexeme.kind (String.ofList taken) continued).namesType (String.ofList (ending.restyle taken))
        = (lexeme.kind (String.ofList taken) continued).namesType (String.ofList taken) := by
    -- Only words are told apart by their text, and a word has no line feed that could be replaced.
    by_cases feed : '\n' ∈ taken
    · exact Lexeme.kind_eq (plain feed) _ _ continued
    · rw [ending.restyle_of_notMem feed]
      exact ⟨rfl, rfl⟩
  refine ⟨⟨kind, text, ?_, ⟨before, taken ++ after, rfl, rfl, rfl⟩,
    ⟨before ++ taken, after, (List.append_assoc ..).symm, Token.stop_ofChars .., ?_⟩⟩, ?_⟩
  · simp only [Token.namesType, Token.ofChars, kind, names]
  · rw [Token.stop_ofChars, restyle_append]
  · simp only [Token.continuesLine, Token.ofChars, kind, String.toList_ofList,
      ending.getLast?_restyle]

/-- The tokens that are left are mirrored by those that are left once line feeds are replaced. -/
theorem mirrors_tokensFrom (continued : Bool) (before chars : List Char) (plain : '\r' ∉ chars) :
    List.Forall₂ (Token.Mirrors (ending.Meets (before ++ chars)) ending.rewrite)
      (tokensFrom continued (utf8Len before) chars)
      (tokensFrom continued (utf8Len (ending.restyle before)) (ending.restyle chars)) := by
  obtain ⟨start, begins⟩ : ∃ start, start = utf8Len before := ⟨_, rfl⟩
  rw [← begins]
  -- Every token takes some characters, after which the rest are read on both sides.
  induction continued, start, chars using tokensFrom.induct generalizing before with
  | case1 continued start =>
    subst begins
    rw [restyle_nil, tokensFrom, tokensFrom, List.append_nil]
    have final : ending.Meets before (utf8Len before) (utf8Len (ending.restyle before)) :=
      ⟨before, [], by simp, rfl, rfl⟩
    exact .cons ⟨rfl, rfl, rfl, final, final⟩ .nil
  | case2 continued start c rest lexeme length shape text token ih =>
    subst begins
    rw [List.mem_cons, not_or] at plain
    obtain ⟨first, others, other, restyled, again, taken, left, words⟩ :=
      ending.exists_lexemeAt (Ne.symm plain.1) shape
    have read : c :: rest = (c :: rest.take length) ++ rest.drop length := by
      rw [List.cons_append, List.take_append_drop]
    obtain ⟨mirrors, continues⟩ :=
      ending.mirrors_ofChars words continued before (rest.drop length)
    have further := ih (before ++ c :: rest.take length)
      (fun member => plain.2 (List.mem_of_mem_drop member)) (Token.stop_ofChars ..)
    rw [← read] at mirrors
    rw [restyled, tokensFrom_cons shape, tokensFrom_cons again, taken, left, continues]
    refine .cons mirrors ?_
    rw [List.append_assoc, ← read, restyle_append] at further
    rwa [← Token.stop_ofChars lexeme continued]

/-- The tokens of a text are mirrored by those of the text with line feeds replaced. -/
theorem mirrors_tokenize {text : String} (plain : '\r' ∉ text.toList) :
    List.Forall₂ (Token.Mirrors (ending.Meets text.toList) ending.rewrite) (tokenize text)
      (tokenize (ending.rewrite text)) := by
  have mirrors := ending.mirrors_tokensFrom false [] text.toList plain
  rwa [← String.toList_ofList (l := ending.restyle text.toList)] at mirrors

end LineEnding

end Dxl
