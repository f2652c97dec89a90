import Dxl.Proofs.View.Apart

/-! Overlap: highlights are apart unless a loop over members shows its item a second time. -/

namespace Dxl.Place

/-- A loop over members repeats its item if it is taken from the statement of the step or of the body, and something in it stands out. -/
def RepeatsItem (loop : Place) : Prop :=
  loop.isA .forInStmt = true ∧ ∃ item, loop.contentOf? 0 = some item ∧ item.highlights ≠ []
    ∧ (loop.statement? 0 = loop.statementAfter? (.keyword .byWord)
      ∨ loop.statement? 0 = loop.statementAfter? (.keyword .doWord))

variable {place part inner : Place} {clean : Prop}

/-- Two places that may be missing are separate if both of them are there. -/
def SeparateIfFound (one other : Option Place) : Prop :=
  ∀ left, one = some left → ∀ right, other = some right → left.Separate right

/-- What is within statements that are apart is separate. -/
theorem separate_of_statements (proper : place.Proper) {one other left right : Place}
    (isLeft : left ∈ place.statements) (isRight : right ∈ place.statements)
    (apart : left.Apart right) (inLeft : one.Within left) (inRight : other.Within right) :
    one.Separate other :=
  .of_apart (proper.of_within (inLeft.trans (.inr (below_of_mem_statements isLeft))))
    (proper.of_within (inRight.trans (.inr (below_of_mem_statements isRight))))
    (apart.of_within inLeft inRight)

/-- In a loop over members, what it runs over, its step and its body are separate, and so is the item from what it runs over. -/
theorem separate_forInStmt (proper : place.Proper) (formed : place.tree.Formed clean)
    (isNode : place.kind = .node .forInStmt) :
    SeparateIfFound (place.contentOf? 0) (place.contentAfter? (.keyword .inWord))
      ∧ SeparateIfFound (place.contentAfter? (.keyword .inWord))
        (place.contentAfter? (.keyword .byWord))
      ∧ SeparateIfFound (place.contentAfter? (.keyword .inWord))
        (place.statementAfter? (.keyword .doWord))
      ∧ SeparateIfFound (place.contentAfter? (.keyword .byWord))
        (place.statementAfter? (.keyword .doWord)) := by
  obtain ⟨item, body, whole, -, itemFirst, bodyLast⟩ := statements_forInStmt proper formed isNode
  -- The last statement is the body, if it is found at all.
  have isLast {last : Place} (after : place.statementAfter? (.keyword .doWord) = some last) :
      body = some last := by
    rcases bodyLast with same | ⟨-, none⟩
    · exact same.symm.trans after
    · simp [none] at after
  -- The first statement is the item, for without one nothing would stand after the word.
  have isFirst {first last : Place} (numbered : place.statement? 0 = some first)
      (after : place.statementAfter? (.keyword .inWord) = some last) : item = some first := by
    cases item with
    | none => simp [itemFirst rfl] at after
    | some item => simpa [statement?, whole] using numbered
  have inOrder : place.statements.Pairwise fun left right => left.stop ≤ right.start :=
    place.nodes_pairwise.filter _
  rw [whole] at inOrder
  -- The statements stand in the order of the header, so that each is before all that follow it.
  obtain ⟨early, -, beforeBody⟩ := List.pairwise_append.mp inOrder
  obtain ⟨earlier, -, beforeStep⟩ := List.pairwise_append.mp early
  obtain ⟨-, -, beforeWhole⟩ := List.pairwise_append.mp earlier
  have within {holder part : Place} (content : holder.content? = some part) : part.Within holder :=
    .inr (below_of_content? content)
  refine ⟨fun left one right another => ?_, fun left one right another => ?_,
    fun left one right another => ?_, fun left one right another => ?_⟩
  · -- The item is apart from what the loop runs over.
    obtain ⟨first, numbered, content⟩ := Option.bind_eq_some_iff.mp one
    obtain ⟨last, after, further⟩ := exists_of_contentAfter? another
    refine separate_of_statements proper (List.mem_of_getElem? numbered)
      (mem_statements_of_statementAfter? after) (.inl ?_) (within content) (within further)
    exact beforeWhole first (by simp [isFirst numbered after]) last (by simp [after])
  · -- What the loop runs over is apart from the step.
    obtain ⟨first, before, content⟩ := exists_of_contentAfter? one
    obtain ⟨last, after, further⟩ := exists_of_contentAfter? another
    refine separate_of_statements proper (mem_statements_of_statementAfter? before)
      (mem_statements_of_statementAfter? after) (.inl ?_) (within content) (within further)
    exact beforeStep first (by simp [before]) last (by simp [after])
  · -- What the loop runs over is apart from the body.
    obtain ⟨first, before, content⟩ := exists_of_contentAfter? one
    refine separate_of_statements proper (mem_statements_of_statementAfter? before)
      (mem_statements_of_statementAfter? another) (.inl ?_) (within content) (.refl _)
    exact beforeBody first (by simp [before]) right (by simp [isLast another])
  · -- The step is apart from the body.
    obtain ⟨first, before, content⟩ := exists_of_contentAfter? one
    refine separate_of_statements proper (mem_statements_of_statementAfter? before)
      (mem_statements_of_statementAfter? another) (.inl ?_) (within content) (.refl _)
    exact beforeBody first (by simp [before]) right (by simp [isLast another])

/-- What is looked at from a node is separate unless it is a loop over members that repeats its item. -/
theorem pairwise_separate_iff (proper : place.Proper) (formed : place.tree.Formed clean) :
    place.shown.Pairwise Separate ↔ ¬ place.RepeatsItem := by
  by_cases isLoop : place.kind = .node .forInStmt
  · obtain ⟨itemWhole, wholeStep, wholeBody, stepBody⟩ := separate_forInStmt proper formed isLoop
    -- Only the item can share its highlights, with the step or with the body.
    have pairs : place.shown.Pairwise Separate
        ↔ SeparateIfFound (place.contentOf? 0) (place.contentAfter? (.keyword .byWord))
          ∧ SeparateIfFound (place.contentOf? 0) (place.statementAfter? (.keyword .doWord)) := by
      rw [shown_eq isLoop, shownOf, List.pairwise_filterMap]
      show List.Pairwise SeparateIfFound _ ↔ _
      simp [itemWhole, wholeStep, wholeBody, stepBody]
    rw [pairs]
    constructor
    · -- An item that is repeated shares its highlights with the step or the body, so there are
      -- none.
      rintro ⟨itemStep, itemBody⟩ ⟨-, item, content, nonempty, same | same⟩
      · -- The step is what the item was taken from.
        have step : place.contentAfter? (.keyword .byWord) = some item := by
          rw [contentAfter?, ← same]
          exact content
        have itself := proper.of_within (.inr (below_of_contentOf? content))
        exact nonempty ((itemStep item content item step).eq_nil itself fun _ => id)
      · -- The body shows the item as a part of itself.
        obtain ⟨holder, numbered, inner⟩ := Option.bind_eq_some_iff.mp content
        have itself := proper.of_within (.inr (below_of_contentOf? content))
        exact nonempty ((itemBody item content holder (same.symm.trans numbered)).eq_nil itself
          (highlights_subset_of_mem_shown (mem_shown_of_content? inner)))
    · intro once
      have inOrder : place.statements.Pairwise fun left right => left.stop ≤ right.start :=
        place.nodes_pairwise.filter _
      -- Either the item is taken from another statement, or nothing in it stands out.
      have either {item first last part : Place} (content : place.contentOf? 0 = some item)
          (numbered : place.statement? 0 = some first) (inFirst : item.Within first)
          {word : Keyword} (after : place.statementAfter? (.keyword word) = some last)
          (isWord : word = .byWord ∨ word = .doWord) (inLast : part.Within last) :
          item.Separate part := by
        by_cases same : first = last
        · refine .of_eq_nil (by_contra fun nonempty => once ?_)
          refine ⟨by simp [isA, isLoop], item, content, nonempty, ?_⟩
          rcases isWord with rfl | rfl
          · exact .inl (by rw [numbered, after, same])
          · exact .inr (by rw [numbered, after, same])
        · have isFirst := List.mem_of_getElem? numbered
          have isLast := mem_statements_of_statementAfter? after
          exact separate_of_statements proper isFirst isLast
            (apart_of_pairwise inOrder isFirst isLast same) inFirst inLast
      refine ⟨fun left one right another => ?_, fun left one right another => ?_⟩
      · obtain ⟨first, numbered, content⟩ := Option.bind_eq_some_iff.mp one
        obtain ⟨last, after, further⟩ := exists_of_contentAfter? another
        exact either one numbered (.inr (below_of_content? content)) after (.inl rfl)
          (.inr (below_of_content? further))
      · obtain ⟨first, numbered, content⟩ := Option.bind_eq_some_iff.mp one
        exact either one numbered (.inr (below_of_content? content)) another (.inr rfl) (.refl _)
  · -- Any other node looks at parts that are apart.
    have apart : place.shown.Pairwise Apart := by
      cases isKind : place.kind with
      | token kind => simp [shown, parts, isKind]
      | node kind => exact pairwise_shown proper formed isKind fun same => isLoop (same ▸ isKind)
    refine iff_of_true (apart.imp_of_mem fun one other apart => ?_) fun repeats => ?_
    · exact .of_apart (proper_of_mem_shown proper one) (proper_of_mem_shown proper other) apart
    · exact isLoop (beq_iff_eq.mp repeats.1)

/-- The highlights of a place do not overlap just if no loop that is reached repeats its item. -/
theorem pairwise_highlights_iff (proper : place.Proper) (formed : place.tree.Formed clean) :
    place.highlights.Pairwise Highlight.Apart ↔ ∀ loop ∈ place.reached, ¬ loop.RepeatsItem := by
  induction place using induct_parts with
  | step place ih =>
    -- What a place has of its own is never doubled, and the parts are settled by induction.
    have own := pairwise_ownHighlights proper
    have parts : (∀ part ∈ place.shown, part.highlights.Pairwise Highlight.Apart)
        ↔ ∀ part ∈ place.parts, ∀ loop ∈ part.1.reached, ¬ loop.RepeatsItem := by
      rw [shown, List.forall_mem_map]
      exact forall₂_congr fun part among => ih part among
        (proper.of_within (.inr part.2)) (formed_of_within formed (.inr part.2))
    rw [highlights_eq, List.pairwise_append, List.pairwise_flatMap, parts, reached_eq,
      List.forall_mem_cons, ← pairwise_separate_iff proper formed]
    simp only [own, List.mem_flatMap, forall_exists_index, and_imp, true_and]
    constructor
    · rintro ⟨⟨below, separate⟩, -⟩
      exact ⟨separate, fun loop part among => below part among loop⟩
    · rintro ⟨separate, below⟩
      exact ⟨⟨fun part among loop => below loop part among, separate⟩,
        fun one isOwn other part isPart inPart => apart_of_mem_ownHighlights proper isOwn isPart inPart⟩

end Dxl.Place
