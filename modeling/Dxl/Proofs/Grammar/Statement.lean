import Dxl.Proofs.Grammar.Declaration

/-! Statements: what the rules for statements, and for rows of them, promise. -/

namespace Dxl.Grammar

open Dxl.Parser

variable {call : Rule → Growth → Except Failure Growth} {limit : Option Nat} {budget : Nat}
  {growth : Growth} (keeps : Keeps call limit budget) (good : growth.Good)
include keeps good

omit keeps in
/-- A directive makes one node without others inside. -/
theorem ensures_pragma (next : growth.next.kind = .keyword .pragmaWord) :
    pragma.Ensures call limit growth fun _ after => growth.Extends after [.pragmaStmt] True := by
  refine ensures_nodeOf good ((ensures_require good.enter (by simp)).bind fun _ begun word => ?_)
  -- However much of the directive is there, nothing but tokens is put into its node.
  have closes : ∀ after reads, begun.Extends after [] reads →
      growth.enter.Becomes (after.close .pragmaStmt) [.pragmaStmt] True := fun after _ extended =>
    ((word.trans extended).imp fun _ => .inl next).close rfl (by simp [NodeKind.isAtom])
  refine (ensures_expect word.good (by simp)).iteRead (fun named name _ => ?_) fun _ settles _ =>
    ensures_pure (closes _ _ settles.extended)
  refine (ensures_expect name.good (by simp)).iteRead (fun marked comma _ => ?_) fun _ settles _ =>
    ensures_pure (closes _ _ (name.trans settles.extended))
  refine (ensures_nextIsOneOf comma.good _).ite (fun looked settles value => ?_) fun _ settles _ =>
    ensures_pure (closes _ _ (name.trans (comma.trans settles.extended)))
  refine (ensures_bump settles.good ?_).mono fun _ _ read =>
    closes _ _ (name.trans (comma.trans (settles.extend read)))
  -- The value is an integer or a string, and neither of them is the end of the text.
  rw [settles.next]
  rintro final
  simp [final] at value

/-- The parts of a path add no nodes. -/
theorem ensures_pathParts (cheap : 8 * growth.rest.length ≤ budget) :
    pathParts.Ensures call limit growth fun _ after => Rule.pathParts.Promises growth after := by
  -- The closing bracket, the end of the text and any token foreign to paths end the parts.
  refine (ensures_nextIs good _).ite (fun _ settles _ => ensures_pure settles.extended)
    fun looked settles _ => ?_
  refine (ensures_atEnd settles.good).ite (fun _ ends _ =>
    ensures_pure (settles.trans ends).extended) fun inside ends goes => ?_
  have start := settles.trans ends
  refine (ensures_nextIsOneOf ends.good _).ite (fun between found part => ?_) fun _ other _ =>
    ensures_pure (start.trans other).extended
  have start := start.trans found
  have fewer := start.extended.fewer
  -- The part is consumed, so the rule calls itself on fewer tokens.
  refine (ensures_bump found.good ?_).bind fun _ read token => ?_
  · rwa [found.next, ends.next]
  · have shorter := token.shorter trivial
    exact (keeps .pathParts read token.good trivial (by simp only [Rule.rank]; omega)).mono
      fun _ after further => (start.extend (token.trans further)).imp False.elim

/-- An inclusion makes one node without others inside. -/
theorem ensures_inclusion (next : growth.next.kind = .keyword .includeWord)
    (cheap : 8 * growth.rest.length ≤ budget) :
    inclusion.Ensures call limit growth fun _ after => growth.Extends after [.includeStmt] True := by
  refine ensures_nodeOf good ((ensures_require good.enter (by simp)).bind fun _ begun word => ?_)
  have shorter := word.shorter next
  simp only [Growth.enter] at shorter
  -- Both spellings of the path leave tokens only, which the node of an inclusion admits.
  have closes : ∀ after reads, begun.Extends after [] reads →
      growth.enter.Becomes (after.close .includeStmt) [.includeStmt] True := fun after _ extended =>
    ((word.trans extended).imp fun _ => .inl next).close rfl (by simp [NodeKind.isAtom])
  -- A path stands between angle brackets; otherwise a text in quotes is required.
  refine (ensures_accept word.good (by simp)).iteRead (fun opened bracket _ => ?_)
    fun between settles _ => ?_
  · have fewer := bracket.fewer
    refine (keeps .pathParts opened bracket.good trivial (by simp only [Rule.rank]; omega)).bind
      fun _ filled path => ?_
    exact (ensures_require path.good (by simp)).mono fun _ after close =>
      closes _ _ (bracket.trans (path.trans close))
  · exact (ensures_require settles.good (by simp)).mono fun _ after text =>
      closes _ _ (settles.extend text)

/-- The value of a jump makes one node, unless it is missing. -/
theorem ensures_jumpValue (keyword : TokenKind) (cheap : 8 * growth.rest.length < budget) :
    (jumpValue keyword).Ensures call limit growth fun _ after =>
      ∃ added, growth.Extends after added False
        ∧ (added = [] ∨ added = [.exprStmt] ∧ keyword = .keyword .returnWord) := by
  rw [jumpValue]
  -- Only a return may have a value: the other jumps consume nothing more.
  by_cases returns : (keyword == .keyword .returnWord) = true
  · rw [if_pos returns]
    refine (ensures_atStatementEnd good).ite (fun _ settles _ =>
      ensures_pure ⟨[], settles.extended, .inl rfl⟩) fun looked settles _ => ?_
    refine (ensures_nextIs settles.good _).ite (fun _ brace _ =>
      -- A closing brace and the end of the text may follow a return at once.
      ensures_pure ⟨[], (settles.trans brace).extended, .inl rfl⟩) fun inside brace _ => ?_
    have start := settles.trans brace
    refine (ensures_atEnd brace.good).ite (fun _ ends _ =>
      ensures_pure ⟨[], (start.trans ends).extended, .inl rfl⟩) fun between ends _ => ?_
    have start := start.trans ends
    have fewer := start.extended.fewer
    -- Anything else is the expression returned.
    exact (ensures_expressionStatement keeps ends.good (by omega)).mono fun _ after value =>
      ⟨_, (start.extend value).imp False.elim, .inr ⟨rfl, by simpa using returns⟩⟩
  · rw [if_neg returns]
    exact ensures_pure ⟨[], .refl good, .inl rfl⟩

omit keeps good in
/-- Each jump is a statement which may stand without a value. -/
theorem jumpNode_spec (kind : TokenKind) :
    (jumpNode kind).isAction = true ∧ (jumpNode kind).isAtom = false
      ∧ (jumpNode kind).admits [] = true := by
  -- Apart from the two jumps without a value, every kind stands for a return.
  unfold jumpNode
  split <;> exact ⟨rfl, rfl, rfl⟩

/-- A jump makes one node. -/
theorem ensures_jump (further : growth.next.kind ≠ .endOfText)
    (cheap : 8 * growth.rest.length ≤ budget) :
    jump.Ensures call limit growth fun kind after =>
      kind.isAction = true ∧ growth.Extends after [kind] True := by
  -- Looking at the word settles the growth, and it leaves the word to be consumed.
  refine ensures_added good ((ensures_look good.enter).bind fun symbol looked ⟨seen, settles⟩ => ?_)
  have fewer := settles.extended.fewer
  simp only [Growth.enter] at fewer
  refine (ensures_bump settles.good (by rw [settles.next]; exact further)).bind
    fun _ begun word => ?_
  have shorter := word.shorter trivial
  refine (ensures_jumpValue keeps word.good symbol.kind (by omega)).bind fun _ after made =>
    ensures_pure ?_
  obtain ⟨added, value, isValue⟩ := made
  have whole := (settles.extend (word.trans value)).imp fun _ : True => .inl trivial
  -- Only the jump that returns admits a value.
  rcases isValue with rfl | ⟨rfl, returns⟩
  · obtain ⟨action, composite, admitted⟩ := jumpNode_spec symbol.kind
    exact ⟨action, whole.close admitted (by simp [composite])⟩
  · rw [returns]
    exact ⟨rfl, whole.close rfl (by simp [NodeKind.isAtom, jumpNode])⟩

/-- What follows a block on its condition stands for statements. -/
theorem ensures_alternative (cheap : 8 * growth.rest.length ≤ budget) :
    alternative.Ensures call limit growth fun _ after =>
      ∃ added, growth.Extends after added False ∧ added.all NodeKind.isAction = true := by
  -- Without the word there is no alternative.
  refine (ensures_accept good (by simp)).iteRead (fun begun word _ => ?_) fun _ settles _ =>
    ensures_pure ⟨[], settles.extended, rfl⟩
  have shorter := word.shorter trivial
  refine (ensures_look word.good).bind fun symbol looked ⟨seen, settles⟩ => ?_
  have fewer := settles.extended.fewer
  have start := (word.trans settles.extended).imp fun never : False => never.elim
  -- The token looked at decides on the rule, so each rule gets the first token it asks for.
  have next : looked.next.kind = symbol.kind := by rw [settles.next, seen]
  split
  · -- Another condition follows at once.
    rename_i condition
    exact (keeps .conditional looked settles.good (next.trans condition)
      (by simp only [Rule.rank]; omega)).mono fun _ after further =>
        ⟨_, (start.trans further).imp .inl, rfl⟩
  · -- A block follows at once.
    rename_i brace
    exact (ensures_block keeps settles.good (next.trans brace) (by omega)).mono
      fun _ after further => ⟨_, (start.trans further).imp .inl, rfl⟩
  · -- Any other statement follows, which may be empty.
    refine (keeps .statement looked settles.good trivial (by simp only [Rule.rank]; omega)).mono
      fun _ after made => ?_
    obtain ⟨kind, further, action⟩ := made
    exact ⟨_, (start.trans further).imp .inl, by simpa using action⟩

/-- What follows a condition between parentheses stands for statements. -/
theorem ensures_conditionalBody (cheap : 8 * growth.rest.length + 2 < budget) :
    conditionalBody.Ensures call limit growth fun _ after =>
      ∃ added, growth.Extends after added False ∧ added.all NodeKind.isAction = true := by
  -- Line ends between the condition and the body are skipped.
  refine (keeps .lineEnds growth good trivial (by simp only [Rule.rank]; omega)).bind
    fun _ begun lines => ?_
  have fewer := lines.fewer
  -- A block may be followed by an alternative.
  refine (ensures_nextIs lines.good _).ite (fun looked settles _ => ?_) fun looked settles _ => ?_
  · have fewerThen := settles.extended.fewer
    refine (keeps .statement looked settles.good trivial (by simp only [Rule.rank]; omega)).bind
      fun _ stated made => ?_
    obtain ⟨kind, statement, action⟩ := made
    have := statement.fewer
    refine (ensures_alternative keeps statement.good (by omega)).mono fun _ after made => ?_
    obtain ⟨others, further, actions⟩ := made
    exact ⟨_, (lines.trans (settles.extend (statement.trans further))).imp False.elim, by
      simp [action, actions]⟩
  have start := lines.trans settles.extended
  have fewerThen := settles.extended.fewer
  -- After the word for it, an expression takes the place of the statement.
  refine (ensures_accept settles.good (by simp)).iteRead (fun opened word _ => ?_)
    fun between other _ => ?_
  · have := word.fewer
    exact (ensures_expressionStatement keeps word.good (by omega)).mono fun _ after value =>
      ⟨_, (start.trans (word.trans value)).imp False.elim, rfl⟩
  · -- Otherwise a statement follows, and then possibly one after the word for the alternative.
    have := other.extended.fewer
    refine (keeps .statement between other.good trivial (by simp only [Rule.rank]; omega)).bind
      fun _ stated made => ?_
    obtain ⟨kind, statement, action⟩ := made
    have := statement.fewer
    have start := start.trans (other.extend statement)
    refine (ensures_accept statement.good (by simp)).iteRead (fun next word _ => ?_)
      fun after settles _ => ?_
    · have := word.shorter trivial
      refine (keeps .statement next word.good trivial (by simp only [Rule.rank]; omega)).mono
        fun _ after made => ?_
      obtain ⟨kind, further, actionThen⟩ := made
      exact ⟨_, (start.trans (word.trans further)).imp False.elim, by simp [action, actionThen]⟩
    · exact ensures_pure ⟨_, (start.trans settles.extended).imp False.elim, by simpa using action⟩

/-- A choice makes one node. -/
theorem ensures_conditional (next : growth.next.kind = .keyword .ifWord)
    (cheap : 8 * growth.rest.length ≤ budget) :
    conditional.Ensures call limit growth fun _ after =>
      Rule.conditional.Promises growth after := by
  refine ensures_nodeOf good ((ensures_require good.enter (by simp)).bind fun _ begun word => ?_)
  have shorter := word.shorter next
  simp only [Growth.enter] at shorter
  -- Whatever was made after the word is put into one node, provided it consists of statements.
  have closes : ∀ after added reads, begun.Extends after added reads →
      added.all NodeKind.isAction = true →
      growth.enter.Becomes (after.close .ifStmt) [.ifStmt] True := fun after _ _ extended actions =>
    ((word.trans extended).imp fun _ => .inl next).close (by simpa [NodeKind.admits] using actions)
      (by simp [NodeKind.isAtom])
  -- A parenthesis after the word marks the usual form with a condition and a body.
  refine (ensures_accept word.good (by simp)).iteRead (fun opened paren _ => ?_)
    fun between settles _ => ?_
  · have fewer := paren.fewer
    refine (ensures_expressionStatement keeps paren.good (by omega)).bind fun _ tested test => ?_
    have fewerThen := test.fewer
    -- Without the closing parenthesis the choice ends after its condition.
    refine (ensures_expect test.good (by simp)).iteRead (fun closed close _ => ?_)
      fun after settles _ => ensures_pure (closes _ _ _ (paren.trans (test.trans settles.extended)) rfl)
    have := close.fewer
    refine (ensures_conditionalBody keeps close.good (by omega)).mono fun _ after made => ?_
    obtain ⟨added, further, actions⟩ := made
    exact closes _ _ _ (paren.trans (test.trans (close.trans further)))
      (by simpa [NodeKind.isAction] using actions)
  · -- Without a parenthesis, the condition and the value after it are expressions.
    have fewer := settles.extended.fewer
    refine (ensures_expressionStatement keeps settles.good (by omega)).bind fun _ tested test => ?_
    have fewerThen := test.fewer
    refine (ensures_accept test.good (by simp)).iteRead (fun next word _ => ?_)
      fun after other _ => ensures_pure (closes _ _ _ (settles.extend (test.trans other.extended)) rfl)
    have := word.fewer
    exact (ensures_expressionStatement keeps word.good (by omega)).mono fun _ after value =>
      closes _ _ _ (settles.extend (test.trans (word.trans value))) rfl

/-- The body of a loop makes one node. -/
theorem ensures_loopBody (cheap : 8 * growth.rest.length + 2 < budget) :
    loopBody.Ensures call limit growth fun _ after =>
      ∃ kind, growth.Extends after [kind] False ∧ kind.isAction = true := by
  -- A block and any other statement both make one node.
  refine (ensures_nextIs good _).ite (fun looked settles next => ?_) fun looked settles _ => ?_
  · have fewer := settles.extended.fewer
    exact (ensures_block keeps settles.good (settles.next ▸ next) (by omega)).mono
      fun _ after block => ⟨_, (settles.extend block).imp False.elim, rfl⟩
  · have fewer := settles.extended.fewer
    exact (keeps .statement looked settles.good trivial (by simp only [Rule.rank]; omega)).mono
      fun _ after ⟨kind, statement, action⟩ =>
        ⟨kind, (settles.extend statement).imp False.elim, action⟩

/-- A loop with a condition makes one node. -/
theorem ensures_whileLoop (next : growth.next.kind = .keyword .whileWord)
    (cheap : 8 * growth.rest.length ≤ budget) :
    whileLoop.Ensures call limit growth fun _ after => growth.Extends after [.whileStmt] True := by
  refine ensures_nodeOf good ((ensures_require good.enter (by simp)).bind fun _ begun word => ?_)
  have shorter := word.shorter next
  simp only [Growth.enter] at shorter
  -- The node of the loop admits every row of statements.
  have closes : ∀ after added reads, begun.Extends after added reads →
      added.all NodeKind.isAction = true →
      growth.enter.Becomes (after.close .whileStmt) [.whileStmt] True :=
    fun after _ _ extended actions => ((word.trans extended).imp fun _ => .inl next).close
      (by simpa [NodeKind.admits] using actions) (by simp [NodeKind.isAtom])
  -- Without either parenthesis the loop is closed early, with what is there.
  refine (ensures_expect word.good (by simp)).iteRead (fun opened paren _ => ?_)
    fun after settles _ => ensures_pure (closes _ _ _ settles.extended rfl)
  have fewer := paren.fewer
  refine (ensures_expressionStatement keeps paren.good (by omega)).bind fun _ tested test => ?_
  have fewerThen := test.fewer
  refine (ensures_expect test.good (by simp)).iteRead (fun closed close _ => ?_)
    fun after settles _ => ensures_pure (closes _ _ _ (paren.trans (test.trans settles.extended)) rfl)
  have := close.fewer
  refine (ensures_loopBody keeps close.good (by omega)).mono fun _ after made => ?_
  obtain ⟨kind, body, action⟩ := made
  exact closes _ _ _ (paren.trans (test.trans (close.trans body)))
    (by simpa [NodeKind.isAction] using action)

/-- Further clauses of a counting loop make a node each. -/
theorem ensures_furtherClauses (cheap : 8 * growth.rest.length ≤ budget) :
    furtherClauses.Ensures call limit growth fun _ after =>
      ∃ added, growth.Extends after added False ∧ added.all NodeKind.isAction = true := by
  -- The second clause needs a first sign, the third clause a second one.
  refine (ensures_accept good (by simp)).iteRead (fun begun sign _ => ?_) fun _ settles _ =>
    ensures_pure ⟨[], settles.extended, rfl⟩
  have shorter := sign.shorter trivial
  refine (ensures_expressionStatement keeps sign.good (by omega)).bind fun _ tested test => ?_
  have fewer := test.fewer
  refine (ensures_accept test.good (by simp)).iteRead (fun next sign' _ => ?_) fun _ settles _ =>
    ensures_pure ⟨_, (sign.trans (test.trans settles.extended)).imp False.elim, rfl⟩
  have := sign'.fewer
  exact (ensures_expressionStatement keeps sign'.good (by omega)).mono fun _ after step =>
    ⟨_, (sign.trans (test.trans (sign'.trans step))).imp False.elim, rfl⟩

/-- The header and the body of a counting loop stand for statements. -/
theorem ensures_countingRest (cheap : 8 * growth.rest.length + 2 < budget) :
    countingRest.Ensures call limit growth fun _ after =>
      ∃ added, growth.Extends after added False ∧ added.all NodeKind.isAction = true := by
  -- The first clause is required, so it always makes a node.
  refine (ensures_expressionStatement keeps good (by omega)).bind fun _ begun start => ?_
  have fewer := start.fewer
  refine (ensures_furtherClauses keeps start.good (by omega)).bind
    fun _ tested ⟨clauses, further, actions⟩ => ?_
  have fewerThen := further.fewer
  have header := start.trans further
  -- Without the closing parenthesis the loop has no body.
  refine (ensures_expect further.good (by simp)).iteRead (fun closed close _ => ?_)
    fun _ settles _ => ensures_pure ⟨_, (header.trans settles.extended).imp False.elim, by
      simpa [NodeKind.isAction] using actions⟩
  have := close.fewer
  exact (ensures_loopBody keeps close.good (by omega)).mono fun _ after ⟨kind, body, action⟩ =>
    ⟨_, (header.trans (close.trans body)).imp False.elim, by
      -- The clauses in the header and the body are all statements.
      simp only [List.all_append, List.all_cons, List.all_nil, actions, action]
      rfl⟩

/-- The item of a loop and what it runs over make a node each, unless they are missing. -/
theorem ensures_member (cheap : 8 * growth.rest.length < budget) :
    member.Ensures call limit growth fun _ after =>
      ∃ added, growth.Extends after added False ∧ added.all NodeKind.isAction = true := by
  -- Only a name begins the item.
  refine (ensures_nextIs good _).ite (fun looked settles _ => ?_) fun _ settles _ =>
    ensures_pure ⟨[], settles.extended, rfl⟩
  have fewer := settles.extended.fewer
  refine (ensures_expressionStatement keeps settles.good (by omega)).bind fun _ named item => ?_
  have fewerThen := item.fewer
  -- The word between the item and what it runs over may be missing.
  refine (ensures_expect item.good (by simp)).iteRead (fun begun word _ => ?_) fun _ other _ =>
    ensures_pure ⟨_, (settles.extend (item.trans other.extended)).imp False.elim, rfl⟩
  have := word.fewer
  exact (ensures_expressionStatement keeps word.good (by omega)).mono fun _ after parent =>
    ⟨_, (settles.extend (item.trans (word.trans parent))).imp False.elim, rfl⟩

/-- The step of a loop makes one node, unless it is missing. -/
theorem ensures_memberStep (cheap : 8 * growth.rest.length ≤ budget) :
    memberStep.Ensures call limit growth fun _ after =>
      ∃ added, growth.Extends after added False ∧ added.all NodeKind.isAction = true := by
  refine (ensures_accept good (by simp)).iteRead (fun begun word _ => ?_) fun _ settles _ =>
    ensures_pure ⟨[], settles.extended, rfl⟩
  have shorter := word.shorter trivial
  exact (ensures_expressionStatement keeps word.good (by omega)).mono fun _ after step =>
    ⟨_, (word.trans step).imp False.elim, rfl⟩

/-- The header and the body of a loop over members stand for items. -/
theorem ensures_memberRest (cheap : 8 * growth.rest.length + 3 < budget) :
    memberRest.Ensures call limit growth fun _ after =>
      ∃ added, growth.Extends after added False ∧ added.all NodeKind.isItem = true := by
  -- The item, the step and the body each have their own place in the row.
  refine (ensures_member keeps good (by omega)).bind fun _ named ⟨items, item, actions⟩ => ?_
  have fewer := item.fewer
  refine (ensures_memberStep keeps item.good (by omega)).bind
    fun _ stepped ⟨steps, step, actionsThen⟩ => ?_
  have fewerThen := step.fewer
  refine (ensures_require step.good (by simp)).bind fun _ begun word => ?_
  have := word.fewer
  -- The body is read by the rule for declarations, so it may declare something.
  refine (keeps .declaration begun word.good trivial (by simp only [Rule.rank]; omega)).mono
    fun _ after ⟨body, further, areItems⟩ => ⟨_,
      (item.trans (step.trans (word.trans further))).imp False.elim, ?_⟩
  -- Statements are items as well, so the whole row consists of items.
  simp [NodeKind.all_imp actions fun _ => NodeKind.isItem_of_isAction,
    NodeKind.all_imp actionsThen fun _ => NodeKind.isItem_of_isAction, areItems]

/-- A loop that counts or goes over members makes one node. -/
theorem ensures_forLoop (next : growth.next.kind = .keyword .forWord)
    (cheap : 8 * growth.rest.length ≤ budget) :
    forLoop.Ensures call limit growth fun kind after =>
      kind.isAction = true ∧ growth.Extends after [kind] True := by
  refine ensures_added good ((ensures_require good.enter (by simp)).bind fun _ begun word => ?_)
  have shorter := word.shorter next
  simp only [Growth.enter] at shorter
  -- The parenthesis tells a loop that counts from one over members.
  refine (ensures_accept word.good (by simp)).iteRead (fun opened paren _ => ?_)
    fun between settles _ => ?_
  · have fewer := paren.fewer
    refine (ensures_countingRest keeps paren.good (by omega)).bind fun _ after made =>
      ensures_pure ⟨rfl, ?_⟩
    obtain ⟨added, further, actions⟩ := made
    exact ((word.trans (paren.trans further)).imp fun _ => .inl next).close
      (by simpa [NodeKind.admits] using actions) (by simp [NodeKind.isAtom])
  · -- The loop over members admits items, as its body may declare something.
    have fewer := settles.extended.fewer
    refine (ensures_memberRest keeps settles.good (by omega)).bind fun _ after made =>
      ensures_pure ⟨rfl, ?_⟩
    obtain ⟨added, further, areItems⟩ := made
    exact ((word.trans (settles.extend further)).imp fun _ => .inl next).close
      (by simpa [NodeKind.admits] using areItems) (by simp [NodeKind.isAtom])

/-- A statement makes one node. -/
theorem ensures_simpleStatement (cheap : 8 * growth.rest.length + 1 < budget) :
    (simpleStatement growth.next.kind).Ensures call limit growth fun _ after =>
      ∃ kind, growth.Extends after [kind] growth.next.kind.GoesOn ∧ kind.isAction = true := by
  -- The token that comes next decides on the statement.
  generalize begins : growth.next.kind = kind
  -- The three words for a jump are served by one rule.
  have jumps : kind ≠ .endOfText → Ensures call limit (do let _ ← jump) growth fun _ after =>
      ∃ made, growth.Extends after [made] kind.GoesOn ∧ made.isAction = true := fun further =>
    (ensures_jump keeps good (begins ▸ further) (by omega)).bind fun _ _ ⟨action, made⟩ =>
      ensures_pure ⟨_, made.imp fun _ => trivial, action⟩
  rw [simpleStatement.eq_def]
  split
  · -- Each case hands the token that begins the statement to its rule.
    exact (ensures_block keeps good begins (by omega)).mono fun _ _ made =>
      ⟨_, made.imp fun _ => trivial, rfl⟩
  · exact (keeps .conditional growth good begins cheap).mono fun _ _ made =>
      ⟨_, made.imp fun _ => trivial, rfl⟩
  · exact (ensures_whileLoop keeps good begins (by omega)).mono fun _ _ made =>
      ⟨_, made.imp fun _ => trivial, rfl⟩
  · exact (ensures_forLoop keeps good begins (by omega)).bind fun _ _ ⟨action, made⟩ =>
      ensures_pure ⟨_, made.imp fun _ => trivial, action⟩
  · exact jumps (by simp)
  · exact jumps (by simp)
  · exact jumps (by simp)
  · exact (ensures_pragma good begins).mono fun _ _ made => ⟨_, made.imp fun _ => trivial, rfl⟩
  · exact (ensures_inclusion keeps good begins (by omega)).mono fun _ _ made =>
      ⟨_, made.imp fun _ => trivial, rfl⟩
  · -- Everything else is an expression, which may leave the token where it is.
    exact (ensures_expressionStatement keeps good (by omega)).mono fun _ _ made =>
      ⟨_, begins ▸ made, rfl⟩

end Dxl.Grammar
