import Dxl.Proofs.Grammar.Statement

/-! Programs: every rule keeps its promise, so that parsing can only fail at a token that was looked at too often. -/

namespace Dxl.Grammar

open Dxl.Parser

section

variable {call : Rule → Growth → Except Failure Growth} {limit : Option Nat} {budget : Nat}
  {growth : Growth} (keeps : Keeps call limit budget) (good : growth.Good)
include keeps good

/-- A statement and what ends it make one node. -/
theorem ensures_statement (cheap : 8 * growth.rest.length + 2 ≤ budget) :
    statement.Ensures call limit growth fun _ after =>
      Rule.statement.Promises growth after := by
  -- The kind of the token that comes next picks the statement, and a look does not change it.
  refine (ensures_look good).bind fun symbol looked ⟨seen, settles⟩ => ?_
  have fewer := settles.extended.fewer
  rw [seen, ← settles.next]
  refine (ensures_simpleStatement keeps settles.good (by omega)).bind
    fun _ stated ⟨kind, made, action⟩ => ?_
  have fewerThen := made.fewer
  -- What ends the statement adds no nodes, so the node made before stays the only one.
  exact (keeps .statementEnds stated made.good trivial (by simp only [Rule.rank]; omega)).mono
    fun _ after ends => ⟨kind, (settles.extend (made.trans ends)).imp
      fun goesOn => .inl (settles.next.symm ▸ goesOn), action⟩

omit keeps in
/-- A warning changes nothing. -/
theorem ensures_warnOfQualifier (kind : TokenKind) :
    (warnOfQualifier kind).Ensures call limit growth fun _ after => growth.Settles after := by
  unfold warnOfQualifier
  -- Only keywords are warned of, and a warning puts nothing into the tree.
  split
  · exact ensures_report good _
  · exact ensures_pure (.refl good)

omit keeps in
/-- A qualifier makes one node, unless it is missing. -/
theorem ensures_qualifier :
    qualifier.Ensures call limit growth fun _ after =>
      growth.Extends after [.ignored] True ∨ growth.Settles after := by
  -- Either qualifier is warned of first and consumed into a node of its own then.
  refine (ensures_nextIsOneOf good _).ite (fun found settles word => ?_) fun _ settles _ =>
    ensures_pure (.inr settles)
  refine (ensures_look settles.good).bind fun symbol looked ⟨_, seen⟩ => ?_
  refine (ensures_warnOfQualifier seen.good _).bind fun _ warned warning => ?_
  have start := (settles.trans seen).trans warning
  refine (ensures_bumpAs warning.good ?_ rfl).mono fun _ after read => .inl (start.extend read)
  -- Neither qualifier is the end of the text.
  rw [start.next]
  rintro final
  simp [final] at word

/-- A declaration or a statement makes items. -/
theorem ensures_declaration (cheap : 8 * growth.rest.length + 3 ≤ budget) :
    declaration.Ensures call limit growth fun _ after =>
      Rule.declaration.Promises growth after := by
  refine (ensures_qualifier good).bind fun _ begun qualified => ?_
  -- With or without a qualifier, what follows is an item.
  have rest : ∀ (begun : Growth), begun.Good → begun.rest.length ≤ growth.rest.length →
      Ensures call limit (do
        if ← atType then
          let _ ← typedDeclaration
        else
          Parser.call .statement
          Parser.call .statementEnds) begun fun _ after =>
        ∃ added, begun.Extends after added begun.next.kind.GoesOn
          ∧ added.all NodeKind.isItem = true := by
    intro begun good fewer
    -- A type decides between a declaration and a statement.
    refine (ensures_atType good).ite (fun looked settles type => ?_) fun looked settles _ => ?_
    · have fewerThen := settles.extended.fewer
      refine (ensures_typedDeclaration keeps settles.good (settles.next ▸ type) (by omega)).bind
        fun kind after declared => ?_
      obtain ⟨possible, made⟩ := declared
      refine ensures_pure ⟨_, (settles.extend made).imp fun _ => trivial, ?_⟩
      -- A declaration is an item, and so are tokens that were passed over.
      rw [Bool.or_eq_true] at possible
      rcases possible with declares | skipped <;> simp_all [NodeKind.isItem]
    · have fewerThen := settles.extended.fewer
      refine (keeps .statement looked settles.good trivial (by simp only [Rule.rank]; omega)).bind
        fun _ stated statement => ?_
      obtain ⟨kind, made, action⟩ := statement
      have := made.fewer
      -- The rule ends the statement a second time, which consumes whatever ends are left.
      exact (keeps .statementEnds stated made.good trivial (by simp only [Rule.rank]; omega)).mono
        fun _ after ends => ⟨_, (settles.extend (made.trans ends)).imp
          fun goesOn => .inl (settles.next.symm ▸ goesOn), by
            simpa using NodeKind.isItem_of_isAction action⟩
  -- The qualifier comes first among the items if there is one.
  rcases qualified with made | settles
  · refine (rest begun made.good made.fewer).mono fun _ after items => ?_
    obtain ⟨added, further, areItems⟩ := items
    exact ⟨_, (made.trans further).imp fun _ => .inl trivial, by
      simpa [NodeKind.isItem] using areItems⟩
  · refine (rest begun settles.good settles.extended.fewer).mono fun _ after items => ?_
    obtain ⟨added, further, areItems⟩ := items
    exact ⟨added, (settles.extend further).imp fun goesOn => settles.next.symm ▸ goesOn, areItems⟩

/-- What ends a statement adds no nodes. -/
theorem ensures_statementEnds (cheap : 8 * growth.rest.length ≤ budget) :
    statementEnds.Ensures call limit growth fun _ after =>
      Rule.statementEnds.Promises growth after := by
  -- The rule is done as soon as the next token ends no statement.
  refine (ensures_atStatementEnd good).ite (fun looked settles ends => ?_) fun _ settles goes =>
    ensures_pure (settles.extended.imp fun ends => goes ends)
  have fewer := settles.extended.fewer
  refine (ensures_bump settles.good ?_).bind fun _ read token => ?_
  · -- Tokens that end statements are not the end of the text.
    rw [settles.next]
    rintro final
    simp [final, TokenKind.endsStatement] at ends
  · have shorter := token.shorter trivial
    exact (keeps .statementEnds read token.good trivial (by simp only [Rule.rank]; omega)).mono
      fun _ after further => (settles.extend (token.trans further)).imp fun _ => .inl trivial

/-- What ends lines adds no nodes. -/
theorem ensures_lineEnds (cheap : 8 * growth.rest.length ≤ budget) :
    lineEnds.Ensures call limit growth fun _ after => Rule.lineEnds.Promises growth after := by
  -- Only line ends are skipped, and each one pays for the next call.
  refine (ensures_accept good (by simp)).iteRead (fun read token _ => ?_) fun _ settles _ =>
    ensures_pure settles.extended
  have shorter := token.shorter trivial
  exact (keeps .lineEnds read token.good trivial (by simp only [Rule.rank]; omega)).mono
    fun _ after further => (token.trans further).imp False.elim

/-- What stands between braces makes items. -/
theorem ensures_blockItems (cheap : 8 * growth.rest.length + 4 ≤ budget) :
    blockItems.Ensures call limit growth fun _ after =>
      Rule.blockItems.Promises growth after := by
  -- The closing brace and the end of the text both end the items.
  refine (ensures_nextIs good _).ite (fun _ settles _ => ensures_pure ⟨[], settles.extended, rfl⟩)
    fun looked settles _ => ?_
  refine (ensures_atEnd settles.good).ite (fun _ ends _ =>
    ensures_pure ⟨[], (settles.trans ends).extended, rfl⟩) fun inside ends further => ?_
  have start := settles.trans ends
  rw [settles.next] at further
  -- A stray end between the items is consumed without a node.
  refine (ensures_atStatementEnd ends.good).ite (fun between finished _ => ?_)
    fun between goes ends => ?_
  · have start := start.trans finished
    have fewer := start.extended.fewer
    refine (ensures_bump finished.good (start.next ▸ further)).bind fun _ read token => ?_
    -- The stray end was a token, so the rule calls itself on fewer tokens.
    have shorter := token.shorter trivial
    refine (keeps .blockItems read token.good trivial (by simp only [Rule.rank]; omega)).mono
      fun _ after made => ?_
    obtain ⟨added, others, areItems⟩ := made
    exact ⟨added, (start.extend (token.trans others)).imp False.elim, areItems⟩
  · rw [start.next] at ends
    have start := start.trans goes
    have fewer := start.extended.fewer
    refine (keeps .declaration between goes.good trivial (by simp only [Rule.rank]; omega)).bind
      fun _ between declared => ?_
    obtain ⟨items, item, areItems⟩ := declared
    -- Something other than an end comes next, so the declaration reads something.
    have shorter := item.shorter (start.next ▸ ⟨further, by simpa using ends⟩)
    refine (keeps .blockItems between item.good trivial (by simp only [Rule.rank]; omega)).mono
      fun _ after made => ?_
    obtain ⟨others, rest, areOthers⟩ := made
    exact ⟨_, (start.extend (item.trans rest)).imp False.elim, by simp [areItems, areOthers]⟩

/-- A whole text makes items, and is read up to its end. -/
theorem ensures_program (cheap : 8 * growth.rest.length + 4 ≤ budget) :
    program.Ensures call limit growth fun _ after =>
      Rule.program.Promises growth after := by
  -- The rule for the program stops at the end of the text and nowhere else.
  refine (ensures_atEnd good).ite (fun after settles final => ensures_pure
    ⟨⟨[], settles.extended, rfl⟩, settles.next ▸ final⟩) fun inside start further => ?_
  refine (ensures_atStatementEnd start.good).ite (fun between finished _ => ?_)
    fun between goes ends => ?_
  · have start := start.trans finished
    have fewer := start.extended.fewer
    refine (ensures_bump finished.good (start.next ▸ further)).bind fun _ read token => ?_
    have shorter := token.shorter trivial
    refine (keeps .program read token.good trivial (by simp only [Rule.rank]; omega)).mono
      fun _ after made => ?_
    obtain ⟨⟨added, others, areItems⟩, final⟩ := made
    exact ⟨⟨added, (start.extend (token.trans others)).imp False.elim, areItems⟩, final⟩
  · rw [start.next] at ends
    have start := start.trans goes
    have fewer := start.extended.fewer
    refine (keeps .declaration between goes.good trivial (by simp only [Rule.rank]; omega)).bind
      fun _ between declared => ?_
    obtain ⟨items, item, areItems⟩ := declared
    -- As between braces, a declaration reads something where no end comes next.
    have shorter := item.shorter (start.next ▸ ⟨further, by simpa using ends⟩)
    refine (keeps .program between item.good trivial (by simp only [Rule.rank]; omega)).mono
      fun _ after made => ?_
    obtain ⟨⟨others, rest, areOthers⟩, final⟩ := made
    exact ⟨⟨_, (start.extend (item.trans rest)).imp False.elim, by simp [areItems, areOthers]⟩,
      final⟩

/-- The body of every rule keeps the promise of the rule. -/
theorem ensures_body (rule : Rule) (requires : rule.Requires growth)
    (cheap : 8 * growth.rest.length + rule.rank ≤ budget) :
    rule.body.Ensures call limit growth fun _ after => rule.Promises growth after := by
  -- Each rule has its own lemma: the ranks differ by what it may call before it consumes.
  cases rule with
  | program => exact ensures_program keeps good cheap
  | declaration => exact ensures_declaration keeps good cheap
  | statement => exact ensures_statement keeps good cheap
  | blockItems => exact ensures_blockItems keeps good cheap
  | conditional => exact ensures_conditional keeps good requires (Nat.le_of_succ_le cheap)
  | parameters => exact ensures_parameters keeps good cheap
  | furtherNames => exact ensures_furtherNames keeps good cheap
  | arrayItems => exact ensures_arrayItems keeps good cheap
  | expression power => exact ensures_expression keeps good power cheap
  | operators operand power =>
    exact ensures_operators keeps good requires.1 requires.2 operand power cheap
  | arguments => exact ensures_arguments keeps good cheap
  | statementEnds => exact ensures_statementEnds keeps good cheap
  | lineEnds => exact ensures_lineEnds keeps good cheap
  | pathParts => exact ensures_pathParts keeps good cheap
  | recovery => exact ensures_recovery keeps good cheap

end

end Dxl.Grammar

namespace Dxl

/-- Rules keep their promises when calls may nest deeply enough for the tokens left. -/
theorem Rule.keeps_grow (limit : Option Nat) (depth : Nat) :
    Keeps (fun rule => rule.grow limit depth) limit (depth + 8) := by
  -- The induction is on the depth of calls, whose budget covers the ranks of all rules.
  -- Each call either reads something first or goes to a rule of lower rank.
  induction depth with
  | zero =>
    -- A growth always has a token left, so without any depth nothing is cheap enough.
    intro rule growth good _ cheap
    have positive := List.length_pos_iff.mpr good.terminated.ne_nil
    omega
  | succ depth ih =>
    intro rule growth good requires cheap
    -- One level deeper, the calls of the body keep their promises by hypothesis.
    have body := Grammar.ensures_body ih good rule requires (by omega)
    unfold Parser.Ensures at body ⊢
    simp only [Parser.grow, Rule.grow]
    cases found : rule.body.grow (fun inner => inner.grow limit depth) limit growth with
    | ok result =>
      rw [found] at body
      exact body
    | error failure =>
      rw [found] at body
      exact body

/-- Growing the tokens of a text gives a sound tree, unless the grammar gets stuck at a token. -/
theorem growWithin_sound (limit : Option Nat) {tokens : List Token}
    (terminated : Terminated tokens) :
    (∃ parsed, growWithin limit tokens = .ok parsed ∧ parsed.tree.Sound)
      ∨ ∃ kind, growWithin limit tokens = .error (.stuck kind) := by
  -- The initial growth is well-formed and has all of the tokens to spend.
  have good : (Growth.initial tokens).Good := ⟨terminated, by simp [Growth.initial]⟩
  have positive := List.length_pos_iff.mpr terminated.ne_nil
  have promised := Rule.keeps_grow limit (Rule.depthFor tokens.length) .program
    (.initial tokens) good trivial (by simp only [Growth.initial, Rule.rank, Rule.depthFor]; omega)
  unfold Parser.Ensures at promised
  simp only [Parser.grow] at promised
  cases program : Rule.program.grow limit (Rule.depthFor tokens.length) (.initial tokens) with
  -- The only failure the promise leaves open is the one of looking too often.
  | error failure =>
    rw [program] at promised
    obtain ⟨kind, stuck⟩ := promised
    exact .inr ⟨kind, by simp [growWithin, program, stuck]⟩
  | ok growth =>
    rw [program] at promised
    obtain ⟨⟨added, extended, areItems⟩, final⟩ := promised
    -- The trivia before the last token is eaten before the tree is closed.
    obtain ⟨token, rest, found, seen, -⟩ := extended.good.exists_next
    have settled := extended.good.eatTrivia
    -- The token that ends the text is the last one.
    have last : token.kind = .endOfText := by rw [seen] at final; exact final
    have finished : rest = [] := (found ▸ settled.good.terminated).eq_nil last
    refine .inl ⟨⟨.node (.node .root) growth.eatTrivia.siblings.reverse, growth.eatTrivia.report⟩,
      by simp [growWithin, program, found, finished], .node ?_ ?_ (by simp [NodeKind.isAtom])⟩
    · -- The root holds what the program made, each part of which is sound.
      exact fun child member => settled.good.sound child (List.mem_reverse.mp member)
    · -- Trivia adds no nodes, so the root holds exactly the items promised.
      have kinds : Tree.nodeKinds growth.eatTrivia.siblings.reverse = added := by
        have := settled.extended.kinds
        rw [extended.kinds, List.append_nil] at this
        exact this
      rw [kinds]
      exact areItems

end Dxl
