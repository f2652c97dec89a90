import Dxl.Proofs.Grammar.Contract

/-! Triples: conditions that hold after a parser has run, and how they are put together. -/

namespace Dxl

/-- A parser, run from a growth, either gets stuck at a token or ends in a way that satisfies a condition. -/
def Parser.Ensures (call : Rule → Growth → Except Failure Growth) (limit : Option Nat) {α : Type}
    (parser : Parser α) (growth : Growth) (post : α → Growth → Prop) : Prop :=
  match parser.grow call limit growth with
  | .ok (value, after) => post value after
  | .error failure => ∃ kind, failure = .stuck kind

namespace Parser

variable {call : Rule → Growth → Except Failure Growth} {limit : Option Nat} {growth : Growth}

/-- A condition can be weakened. -/
theorem Ensures.mono {α : Type} {parser : Parser α} {post weaker : α → Growth → Prop}
    (ensures : parser.Ensures call limit growth post)
    (implied : ∀ value after, post value after → weaker value after) :
    parser.Ensures call limit growth weaker := by
  unfold Ensures at ensures ⊢
  split
  · rename_i found
    rw [found] at ensures
    exact implied _ _ ensures
  · -- A failure is the same whatever the condition asks for.
    rename_i found
    rw [found] at ensures
    exact ensures

/-- Nothing more to do, nothing more to show. -/
theorem ensures_pure {α : Type} {value : α} {post : α → Growth → Prop}
    (holds : post value growth) :
    (pure value : Parser α).Ensures call limit growth post :=
  holds

/-- What the first program ensures is what the second starts from. -/
theorem Ensures.bind {α β : Type} {first : Parser α} {next : α → Parser β}
    {between : α → Growth → Prop} {post : β → Growth → Prop}
    (ensures : first.Ensures call limit growth between)
    (further : ∀ value after, between value after →
      (next value).Ensures call limit after post) :
    (first >>= next).Ensures call limit growth post := by
  change (Parser.andThen first next).Ensures call limit growth post
  unfold Ensures at ensures
  simp only [Ensures, grow]
  cases found : first.grow call limit growth with
  -- The second program starts where the first one ended.
  | ok result =>
    rw [found] at ensures
    exact further _ _ ensures
  | error failure =>
    rw [found] at ensures
    exact ensures

/-- A look shows what comes next. -/
theorem ensures_look (good : growth.Good) :
    look.Ensures call limit growth fun symbol after =>
      symbol = growth.next ∧ growth.Settles after := by
  obtain ⟨token, rest, found, seen, -⟩ := good.exists_next
  have settled := good.eatTrivia
  unfold Ensures
  simp only [grow, Growth.look, found]
  -- Only having looked too often makes the look fail.
  by_cases often : limit.any (· ≤ growth.looks) = true
  · simp only [often, if_true]
    exact ⟨token.kind, rfl⟩
  · simp only [often]
    refine ⟨seen.symm, ?_, ?_⟩
    · simpa only [found] using settled.extended.withLooks (growth.looks + 1)
    · simpa only [Growth.next, found] using settled.next

/-- A token that is not the end of the text can be read after the trivia before it. -/
theorem grow_bump (good : growth.Good) (further : growth.next.kind ≠ .endOfText) :
    ∃ token, token.kind.isTrivia = false
      ∧ bump.grow call limit growth
          = .ok ((), { growth.eatTrivia.addLeaf token with looks := 0 })
      ∧ growth.Extends { growth.eatTrivia.addLeaf token with looks := 0 } [] True := by
  obtain ⟨token, rest, found, seen, proper⟩ := good.exists_next
  have settled := good.eatTrivia
  -- What comes next is the token after the trivia, and it is not the end of the text.
  have inside : token.kind ≠ .endOfText := by simpa [seen, Token.symbol] using further
  refine ⟨token, proper, ?_, (settled.extend (settled.good.addLeaf found inside)).withLooks 0⟩
  simp only [grow, Growth.bump, found, inside, if_false, Except.map]

/-- A token that is not the end of the text can be read. -/
theorem ensures_bump (good : growth.Good) (further : growth.next.kind ≠ .endOfText) :
    bump.Ensures call limit growth fun _ after => growth.Extends after [] True := by
  obtain ⟨token, -, bumped, extended⟩ := @grow_bump call limit growth good further
  unfold Ensures
  rw [bumped]
  exact extended

/-- A mistake changes nothing that counts. -/
theorem ensures_report (good : growth.Good) (mistake : Mistake) :
    (report mistake).Ensures call limit growth fun _ after => growth.Settles after :=
  ⟨⟨⟨good.terminated, good.sound⟩, Nat.le_refl _, False.elim, by simp [Growth.kinds, Growth.addMistake],
    fun operand => Opening.orElse_eq_node.mpr (.inl operand)⟩, rfl⟩

/-- A parser that changes what another one grows ensures what is left of the condition. -/
theorem Ensures.map {α β : Type} {parser : Parser α} {outer : Parser β} {start : Growth}
    {change : α × Growth → β × Growth} {inside : α → Growth → Prop} {post : β → Growth → Prop}
    (same : outer.grow call limit growth = (parser.grow call limit start).map change)
    (ensures : parser.Ensures call limit start inside)
    (changes : ∀ value inner, inside value inner →
      post (change (value, inner)).1 (change (value, inner)).2) :
    outer.Ensures call limit growth post := by
  unfold Ensures at ensures ⊢
  rw [same]
  cases found : parser.grow call limit start with
  | ok result =>
    rw [found] at ensures
    exact changes _ _ ensures
  | error failure =>
    -- Being stuck inside is being stuck.
    rw [found] at ensures
    exact ensures

/-- A node joins the frame once its body is closed as the kind that it gives. -/
theorem ensures_node {body : Parser NodeKind} {inside post : NodeKind → Growth → Prop}
    (ensures : body.Ensures call limit growth.enter inside)
    (closes : ∀ kind inner, inside kind inner → post kind (growth.leave (inner.close kind))) :
    (node body).Ensures call limit growth post :=
  ensures.map (grow_node call limit growth body) closes

/-- What is left of an inner frame joins the outer one. -/
theorem ensures_frame {α : Type} {body : Parser α} {inside post : α → Growth → Prop}
    (ensures : body.Ensures call limit growth.enter inside)
    (leaves : ∀ value inner, inside value inner → post value (growth.leave inner)) :
    (frame body).Ensures call limit growth post :=
  ensures.map (grow_frame call limit growth body) leaves

/-- A node around an operand takes in the frame. -/
theorem ensures_wrap {body : Parser NodeKind} {inside post : NodeKind → Growth → Prop}
    (operand : growth.opening = .node) (ensures : body.Ensures call limit growth.enter inside)
    (closes : ∀ kind inner, inside kind inner → post kind ((growth.leave inner).close kind)) :
    (wrap body).Ensures call limit growth post :=
  ensures.map (grow_wrap call limit growth body operand) closes

/-- Progress means that something was read. -/
theorem ensures_progress {body : Parser Unit} {post : Growth → Prop}
    (ensures : body.Ensures call limit growth fun _ after => post after) :
    (progress body).Ensures call limit growth fun progressed after =>
      post after ∧ (progressed = true → after.rest.length < growth.rest.length) := by
  refine ensures.map (grow_progress call limit growth body) fun _ after holds =>
    ⟨holds, fun progressed => ?_⟩
  show after.rest.length < growth.rest.length
  -- Without fewer tokens there is nothing to look through.
  rw [Growth.hasProgressed] at progressed
  by_contra same
  rw [show growth.rest.length - after.rest.length = 0 by omega] at progressed
  simp at progressed

/-- The two branches of a choice start from what its test found. -/
theorem Ensures.ite {α : Type} {test : Parser Bool} {holds : Prop} {yes no : Parser α}
    {post : α → Growth → Prop}
    (tests : test.Ensures call limit growth fun found after =>
      (found = true ↔ holds) ∧ growth.Settles after)
    (onYes : ∀ after, growth.Settles after → holds → yes.Ensures call limit after post)
    (onNo : ∀ after, growth.Settles after → ¬holds → no.Ensures call limit after post) :
    (test >>= fun found => if found = true then yes else no).Ensures call limit growth post := by
  refine tests.bind fun found after ⟨exact_, settles⟩ => ?_
  cases found with
  | true => exact onYes after settles (exact_.mp rfl)
  | false => exact onNo after settles fun holds => Bool.noConfusion (exact_.mpr holds)

/-- The two branches of a choice start from what was read, or from what was there instead. -/
theorem Ensures.iteRead {α : Type} {attempt : Parser Bool} {kind : TokenKind} {yes no : Parser α}
    {post : α → Growth → Prop}
    (attempts : attempt.Ensures call limit growth fun found after =>
      (found = true ∧ growth.next.kind = kind ∧ growth.Extends after [] True)
        ∨ (found = false ∧ growth.next.kind ≠ kind ∧ growth.Settles after))
    (onYes : ∀ after, growth.Extends after [] True → growth.next.kind = kind →
      yes.Ensures call limit after post)
    (onNo : ∀ after, growth.Settles after → growth.next.kind ≠ kind →
      no.Ensures call limit after post) :
    (attempt >>= fun found => if found = true then yes else no).Ensures call limit growth post := by
  refine attempts.bind fun found after result => ?_
  -- The attempt tells whether the token was there, and so which branch is taken.
  rcases result with ⟨rfl, next, extended⟩ | ⟨rfl, next, settles⟩
  · exact onYes after extended next
  · exact onNo after settles next

section

variable (good : growth.Good)
include good

/-- Testing for a kind of token compares it with what comes next. -/
theorem ensures_nextIs (kind : TokenKind) :
    (nextIs kind).Ensures call limit growth fun found after =>
      (found = true ↔ growth.next.kind = kind) ∧ growth.Settles after :=
  (ensures_look good).bind fun symbol after ⟨seen, settles⟩ =>
    ensures_pure ⟨by simp [seen], settles⟩

/-- Testing for several kinds of tokens looks for what comes next among them. -/
theorem ensures_nextIsOneOf (kinds : List TokenKind) :
    (nextIsOneOf kinds).Ensures call limit growth fun found after =>
      (found = true ↔ growth.next.kind ∈ kinds) ∧ growth.Settles after :=
  (ensures_look good).bind fun symbol after ⟨seen, settles⟩ =>
    ensures_pure ⟨by simp [seen], settles⟩

/-- The end of the text is a kind of token. -/
theorem ensures_atEnd :
    atEnd.Ensures call limit growth fun found after =>
      (found = true ↔ growth.next.kind = .endOfText) ∧ growth.Settles after :=
  ensures_nextIs good .endOfText

/-- Whether a statement ends is told by what comes next. -/
theorem ensures_atStatementEnd :
    atStatementEnd.Ensures call limit growth fun found after =>
      (found = true ↔ growth.next.kind.endsStatement = true) ∧ growth.Settles after :=
  (ensures_look good).bind fun symbol after ⟨seen, settles⟩ =>
    ensures_pure ⟨by simp [seen], settles⟩

/-- Whether a type is named is told by what comes next. -/
theorem ensures_atType :
    atType.Ensures call limit growth fun found after =>
      (found = true ↔ growth.next.namesType = true) ∧ growth.Settles after :=
  (ensures_look good).bind fun symbol after ⟨seen, settles⟩ =>
    ensures_pure ⟨by simp [seen], settles⟩

/-- A token is accepted just if it comes next. -/
theorem ensures_accept {kind : TokenKind} (further : kind ≠ .endOfText) :
    (accept kind).Ensures call limit growth fun found after =>
      (found = true ∧ growth.next.kind = kind ∧ growth.Extends after [] True)
        ∨ (found = false ∧ growth.next.kind ≠ kind ∧ growth.Settles after) := by
  refine (ensures_nextIs good kind).ite (fun between settles next => ?_) fun between settles other => ?_
  · -- The token was seen already, and a look does not change what comes next.
    have proper : between.next.kind ≠ .endOfText := by rwa [settles.next, next]
    exact (ensures_bump settles.good proper).bind fun _ after extended =>
      ensures_pure (.inl ⟨rfl, next, settles.extend extended⟩)
  · exact ensures_pure (.inr ⟨rfl, other, settles⟩)

/-- Noting that a token is missing changes nothing. -/
theorem ensures_missing (kind : TokenKind) :
    (missing kind).Ensures call limit growth fun _ after => growth.Settles after :=
  (ensures_look good).bind fun _ _ ⟨_, settles⟩ =>
    (ensures_report settles.good _).mono fun _ _ noted => settles.trans noted

/-- A token is there as expected just if it comes next. -/
theorem ensures_expect {kind : TokenKind} (further : kind ≠ .endOfText) :
    (expect kind).Ensures call limit growth fun found after =>
      (found = true ∧ growth.next.kind = kind ∧ growth.Extends after [] True)
        ∨ (found = false ∧ growth.next.kind ≠ kind ∧ growth.Settles after) := by
  refine (ensures_accept good further).iteRead (fun after extended next => ?_)
    fun between settles other => ?_
  · exact ensures_pure (.inl ⟨rfl, next, extended⟩)
  · exact (ensures_missing settles.good kind).bind fun _ after noted =>
      ensures_pure (.inr ⟨rfl, other, settles.trans noted⟩)

/-- A required token is read if it comes next. -/
theorem ensures_require {kind : TokenKind} (further : kind ≠ .endOfText) :
    (require kind).Ensures call limit growth fun _ after =>
      growth.Extends after [] (growth.next.kind = kind) := by
  refine (ensures_expect good further).bind fun found after result => ensures_pure ?_
  -- Either the token was read, or it is not the one that comes next.
  rcases result with ⟨_, _, extended⟩ | ⟨_, other, settles⟩
  · exact extended.imp fun _ => trivial
  · exact settles.extended.imp fun next => other next

/-- A token that may be there is read if it comes next. -/
theorem ensures_skip {kind : TokenKind} (further : kind ≠ .endOfText) :
    (skip kind).Ensures call limit growth fun _ after =>
      growth.Extends after [] (growth.next.kind = kind) := by
  refine (ensures_accept good further).bind fun found after result => ensures_pure ?_
  rcases result with ⟨_, _, extended⟩ | ⟨_, other, settles⟩
  · exact extended.imp fun _ => trivial
  · exact settles.extended.imp fun next => other next

/-- A node is added to the frame. -/
theorem ensures_added {body : Parser NodeKind} {possible : NodeKind → Prop} {reads : Prop}
    (ensures : body.Ensures call limit growth.enter fun kind inner =>
      possible kind ∧ growth.enter.Becomes (inner.close kind) [kind] reads) :
    (node body).Ensures call limit growth fun kind after =>
      possible kind ∧ growth.Extends after [kind] reads :=
  ensures_node ensures fun _ _ ⟨given, closed⟩ => ⟨given, closed.toExtends.leave good⟩

/-- A node of a given kind is added to the frame. -/
theorem ensures_nodeOf {kind : NodeKind} {body : Parser Unit} {reads : Prop}
    (ensures : body.Ensures call limit growth.enter fun _ inner =>
      growth.enter.Becomes (inner.close kind) [kind] reads) :
    (nodeOf kind body).Ensures call limit growth fun _ after => growth.Extends after [kind] reads :=
  (@ensures_added call limit growth good _ (· = kind) reads
    (ensures.bind fun _ _ closed => ensures_pure ⟨rfl, closed⟩)).bind
      fun _ _ ⟨same, extended⟩ => ensures_pure (same ▸ extended)

omit good

/-- The first node of a frame is its operand. -/
theorem ensures_first {body : Parser NodeKind} {possible : NodeKind → Prop} {reads : Prop}
    (ensures : body.Ensures call limit growth.enter fun kind inner =>
      possible kind ∧ growth.enter.Becomes (inner.close kind) [kind] reads) :
    (node body).Ensures call limit growth.enter fun kind after =>
      possible kind ∧ growth.enter.Becomes after [kind] reads :=
  @ensures_node call limit growth.enter _ _ _ ensures fun _ _ ⟨given, closed⟩ =>
    ⟨given, (growth.enter_leave _).symm ▸ closed⟩

/-- The first node of a frame is its operand. -/
theorem ensures_firstOf {kind : NodeKind} {body : Parser Unit} {reads : Prop}
    (ensures : body.Ensures call limit growth.enter fun _ inner =>
      growth.enter.Becomes (inner.close kind) [kind] reads) :
    (nodeOf kind body).Ensures call limit growth.enter fun _ after =>
      growth.enter.Becomes after [kind] reads :=
  (@ensures_first call limit growth _ (· = kind) reads
    (ensures.bind fun _ _ closed => ensures_pure ⟨rfl, closed⟩)).bind
      fun _ _ ⟨same, becomes⟩ => ensures_pure (same ▸ becomes)

/-- A node of a given kind is opened around the operand. -/
theorem ensures_wrapIn {kind : NodeKind} {body : Parser Unit} {reads : Prop}
    (operand : growth.opening = .node)
    (ensures : body.Ensures call limit growth.enter fun _ inner =>
      growth.Becomes ((growth.leave inner).close kind) [kind] reads) :
    (wrapIn kind body).Ensures call limit growth fun _ after =>
      growth.Becomes after [kind] reads := by
  -- The body gives no kind, so the node is closed as the kind it is opened for.
  have closes : (body.andThen fun _ => pure kind).Ensures call limit growth.enter fun made inner =>
      made = kind ∧ growth.Becomes ((growth.leave inner).close kind) [kind] reads :=
    ensures.bind fun _ _ closed => ensures_pure ⟨rfl, closed⟩
  have wraps : (wrap (body.andThen fun _ => pure kind)).Ensures call limit growth
      fun made after => made = kind ∧ growth.Becomes after [kind] reads :=
    ensures_wrap operand closes fun _ _ ⟨same, closed⟩ => ⟨same, same ▸ closed⟩
  exact wraps.bind fun _ _ ⟨_, becomes⟩ => ensures_pure becomes

end

section

variable {kind : NodeKind} (good : growth.Good) (further : growth.next.kind ≠ .endOfText)
include good further

/-- A single token makes a node of any kind that needs no more. -/
theorem ensures_bump_closed (admitted : kind.admits [] = true) :
    bump.Ensures call limit growth.enter fun _ inner =>
      growth.enter.Becomes (inner.close kind) [kind] True := by
  obtain ⟨token, proper, bumped, extended⟩ :=
    @grow_bump call limit growth.enter good.enter further
  unfold Ensures
  rw [bumped]
  refine extended.close admitted fun _ => ?_
  -- Trivia is read first, so that the token is the last leaf.
  refine ⟨(growth.rest.takeWhile (·.kind.isTrivia)).map Token.leaf, token.kind, token.text, ?_,
    proper, ?_⟩
  · simp [Growth.addLeaf, Growth.eatTrivia, Growth.siblings_foldl_addLeaf, Growth.enter, Token.leaf]
  · intro tree member
    obtain ⟨trivia, inside, rfl⟩ := List.mem_map.mp member
    exact List.all_eq_true.mp List.all_takeWhile trivia inside

/-- A single token is added as a node. -/
theorem ensures_bumpAs (admitted : kind.admits [] = true) :
    (bumpAs kind).Ensures call limit growth fun _ after => growth.Extends after [kind] True :=
  ensures_nodeOf good (ensures_bump_closed good further admitted)

/-- A single token makes an operand. -/
theorem ensures_bumpAs_first (admitted : kind.admits [] = true) :
    (bumpAs kind).Ensures call limit growth.enter fun _ after =>
      growth.enter.Becomes after [kind] True :=
  ensures_firstOf (ensures_bump_closed good further admitted)

end

end Parser

end Dxl
