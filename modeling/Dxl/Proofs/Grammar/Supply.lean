import Dxl.Proofs.Grammar.Costs
import Dxl.Proofs.Grammar.Operands

/-! Supply: an operand that is asked for is added, unless an empty one stands in its place or the statement ends there. -/

namespace Dxl

namespace TokenKind

/-- A token that is an operand by itself makes an expression. -/
theorem isExpression_atom {kind : TokenKind} {made : NodeKind}
    (begins : kind.operandStart = .atom made) : made.isExpression = true := by
  rcases eq_of_atom begins with rfl | rfl | rfl <;> rfl

/-- A binary operator makes an expression of two operands, which are neither joined nor an index. -/
theorem operandCount_infixNode? {kind : TokenKind} {made : NodeKind}
    (makes : kind.infixNode? = some made) :
    made.isExpression = true ∧ made.operandCount = 2 ∧ made ≠ .concat ∧ made ≠ .index := by
  unfold infixNode? at makes
  split at makes <;> cases makes <;> exact ⟨rfl, rfl, nofun, nofun⟩

/-- A string is an operand that can be joined. -/
theorem startsOperand_of_string {kind : TokenKind} {operand : NodeKind}
    (continues : kind.continuation operand = .string) : kind.startsOperand = true := by
  rw [eq_string_of_string continues]
  rfl

end TokenKind

/-- More trees hold no fewer expressions. -/
theorem expressionCount_le_append (left right : List Tree) :
    expressionCount right ≤ expressionCount (left ++ right) := by
  rw [expressionCount_append]
  exact Nat.le_add_left _ _

/-- A node of an expression is one. -/
theorem expressionCount_node {kind : NodeKind} (children : List Tree)
    (isExpression : kind.isExpression = true) :
    expressionCount [.node (.node kind) children] = 1 := by
  simp [expressionCount, Tree.isExpression, Kind.isNodeWith, isExpression]

namespace Growth

/-- The next token ends a statement without belonging to it. -/
def CutsOff (growth : Growth) : Prop :=
  ∃ symbol, growth.Sees (some symbol) ∧ symbol.kind.cutsOff = true

/-- The frame holds an operand. -/
def HasOperand (growth : Growth) : Prop :=
  0 < expressionCount growth.siblings

/-- An operand that was asked for was added, which may be an empty one, or the statement ends there. -/
inductive Supplied (after : Growth) (added : List Tree) : Prop where
  | operand (found : 0 < operandTotal added)
  | cutOff (ends : after.CutsOff)

/-- An operand is added where one begins, and is otherwise accounted for as long as there are no errors. -/
def Supplies (growth after : Growth) : Prop :=
  ∃ added, after.siblings = added ++ growth.siblings
    ∧ (growth.next.kind.startsOperand = true → 0 < expressionCount added)
    ∧ (after.report.errors = [] → after.Supplied added)

variable {tokens : List Token} {growth after between : Growth} {limit : Option Nat}

/-- A statement that ends there has ended for a look as well. -/
theorem CutsOff.look {symbol : Symbol} (cut : growth.CutsOff)
    (looked : growth.look limit = .ok (symbol, after)) :
    symbol.kind.cutsOff = true ∧ after.CutsOff := by
  obtain ⟨known, sees, ends⟩ := cut
  obtain ⟨fits, seesAfter⟩ := sees.look looked
  obtain rfl := (Symbol.fits_some symbol known).mp fits
  exact ⟨ends, symbol, seesAfter, ends⟩

/-- The operand in the frame is one of those in it. -/
theorem HasOperand.total (has : growth.HasOperand) : 0 < operandTotal growth.siblings :=
  Nat.lt_of_lt_of_le has (expressionCount_le_operandTotal _)

/-- An operand is still there when trees are added. -/
theorem HasOperand.adds (has : growth.HasOperand) {property : Tree → Prop}
    (adds : growth.Adds after property) : after.HasOperand := by
  obtain ⟨added, siblings, -⟩ := adds
  rw [HasOperand, siblings]
  exact Nat.lt_of_lt_of_le has (expressionCount_le_append added _)

/-- A frame that begins with a node of an expression holds an operand. -/
theorem hasOperand_of_node {kind : NodeKind} {children others : List Tree}
    (siblings : growth.siblings = .node (.node kind) children :: others)
    (isExpression : kind.isExpression = true) : growth.HasOperand := by
  rw [HasOperand, siblings, ← List.singleton_append, expressionCount_append,
    expressionCount_node children isExpression]
  exact Nat.lt_of_lt_of_le Nat.one_pos (Nat.le_add_right _ _)

/-- There is an error after one was noted. -/
theorem errors_addMistake {mistake : Mistake} (isError : mistake.severity = .error) :
    (growth.addMistake mistake).report.errors ≠ [] := by
  simp [Report.errors, addMistake, Report.add, Mistake.remark, isError]

/-- An operand in an inner frame is supplied to the outer one. -/
theorem Supplies.leave {inner : Growth} (has : inner.HasOperand) :
    growth.Supplies (growth.leave inner) :=
  ⟨inner.siblings, rfl, fun _ => has,
    fun _ => .operand (Nat.lt_of_lt_of_le has (expressionCount_le_operandTotal _))⟩

/-- What is supplied after a look is so before it as well. -/
theorem Supplies.of_look {symbol : Symbol} (looked : growth.look limit = .ok (symbol, between))
    (supplies : between.Supplies after) : growth.Supplies after := by
  obtain ⟨-, next, trivia, first, -⟩ := look_ok looked
  obtain ⟨added, siblings, starts, supplied⟩ := supplies
  -- The trivia that the look passes over is no operand, and the next token stays the same.
  refine ⟨added ++ trivia, by simp [siblings, first], fun begins => ?_, fun clean => ?_⟩
  · rw [← next] at begins
    have found := starts begins
    rw [expressionCount_append]
    omega
  · cases supplied clean with
    | operand found =>
      refine .operand ?_
      rw [operandTotal_append]
      omega
    | cutOff ends => exact .cutOff ends

/-- A node is complete if all of its operands are there but the one that was asked for last. -/
theorem Supplied.complete {kind : NodeKind} {before added : List Tree}
    (supplied : after.Supplied added) (along : after.Along tokens) (apart : kind ≠ .concat)
    (closed : kind ≠ .index) (enough : kind.operandCount ≤ operandTotal before + 1) :
    Complete tokens after.offset kind (before ++ added.reverse) := by
  -- Either the operand is there or the statement ends at the next token.
  cases supplied with
  | operand found =>
    refine .empty apart ?_
    rw [operandTotal_append, operandTotal_reverse]
    omega
  | cutOff ends =>
    obtain ⟨symbol, sees, cut⟩ := ends
    obtain ⟨token, member, -, same, starts⟩ := along.seen sees
    refine .cutOff apart closed ?_ ⟨token, member, ?_, starts⟩
    · rw [operandTotal_append]
      omega
    · rwa [← same] at cut

end Growth

namespace Parser

open Dxl.Growth

variable {call : Rule → Growth → Except Failure Growth} {limit : Option Nat}
  {growth after : Growth} {kind : TokenKind} {found : Bool}

/-- A token is read just if a look sees that it is the one. -/
theorem grow_accept_ok (grown : (accept kind).grow call limit growth = .ok (found, after)) :
    ∃ symbol looked, growth.look limit = .ok (symbol, looked)
      ∧ (found = true ∧ symbol.kind = kind ∧ looked.bump = .ok after
        ∨ found = false ∧ looked = after) := by
  obtain ⟨isNext, looked, tested, rest⟩ := grow_bind_ok.mp grown
  obtain ⟨symbol, look, same⟩ := grow_test_ok tested
  refine ⟨symbol, looked, look, ?_⟩
  split at rest
  · -- The test was made on the symbol that the look has seen.
    rename_i matched
    obtain ⟨_, read, bumped, returned⟩ := grow_bind_ok.mp rest
    obtain ⟨rfl, rfl⟩ := grow_pure_ok.mp returned
    rw [matched] at same
    exact .inl ⟨rfl, beq_iff_eq.mp same, grow_bump_ok.mp bumped⟩
  · obtain ⟨rfl, rfl⟩ := grow_pure_ok.mp rest
    exact .inr ⟨rfl, rfl⟩

/-- Only a token that is read is added. -/
theorem adds_accept (grown : (accept kind).grow call limit growth = .ok (found, after)) :
    growth.Adds after Tree.Inert := by
  obtain ⟨symbol, looked, look, ⟨-, -, bumped⟩ | ⟨-, rfl⟩⟩ := grow_accept_ok grown
  · exact (adds_look look).trans (adds_bump bumped)
  · exact adds_look look

/-- A token is missing where the statement has ended, and it has ended there still. -/
theorem accept_of_cutsOff (cut : growth.CutsOff) (wanted : kind.cutsOff = false)
    (grown : (accept kind).grow call limit growth = .ok (found, after)) :
    found = false ∧ after.CutsOff := by
  obtain ⟨symbol, looked, look, ⟨-, rfl, -⟩ | ⟨missed, rfl⟩⟩ := grow_accept_ok grown
  · rw [(cut.look look).1] at wanted
    cases wanted
  · exact ⟨missed, (cut.look look).2⟩

/-- A token that is needed is read, or an error tells that it is missing. -/
theorem grow_expect_ok (grown : (expect kind).grow call limit growth = .ok (found, after)) :
    growth.Adds after Tree.Inert ∧ (after.report.errors = [] →
      found = true ∧ (accept kind).grow call limit growth = .ok (true, after)) := by
  obtain ⟨accepted, between, tested, rest⟩ := grow_bind_ok.mp grown
  split at rest
  · rename_i matched
    obtain ⟨rfl, rfl⟩ := grow_pure_ok.mp rest
    rw [matched] at tested
    exact ⟨adds_accept tested, fun _ => ⟨rfl, tested⟩⟩
  · -- What is missing is noted as an error, so that there is nothing to show for clean texts.
    obtain ⟨_, noted, missed, returned⟩ := grow_bind_ok.mp rest
    obtain ⟨-, rfl⟩ := grow_pure_ok.mp returned
    obtain ⟨symbol, looked, look, reported⟩ := grow_bind_ok.mp missed
    cases reported
    obtain ⟨trivia, siblings, inert⟩ := (adds_accept tested).trans (adds_look look)
    exact ⟨⟨trivia, siblings, inert⟩, fun clean => absurd clean (errors_addMistake rfl)⟩

/-- Where a statement has ended an error tells that a token is missing which is needed. -/
theorem expect_of_cutsOff (cut : growth.CutsOff) (wanted : kind.cutsOff = false)
    (grown : (expect kind).grow call limit growth = .ok (found, after)) :
    after.report.errors ≠ [] := by
  intro clean
  have accepted := ((grow_expect_ok grown).2 clean).2
  cases (accept_of_cutsOff cut wanted accepted).1

end Parser

/-- The rules that are called supply operands and make only complete nodes. -/
structure Furnishes (tokens : List Token) (call : Rule → Growth → Except Failure Growth) :
    Prop where
  expression : ∀ {power : Nat} {growth after : Growth}, call (.expression power) growth = .ok after →
    growth.Supplies after
  operators : ∀ {operand : NodeKind} {power : Nat} {growth after : Growth},
    call (.operators operand power) growth = .ok after → growth.HasOperand →
    growth.Onward tokens after ∧ after.HasOperand
  plain : Course.Called (fun _ growth _ after => growth.Onward tokens after) Rule.IsPlain call

/-- An operand may be read where operators may not. -/
theorem Rule.isPlain_expression (power : Nat) : (Rule.expression power).IsPlain :=
  trivial

namespace Furnishes

open Dxl.Parser Dxl.Growth

variable {tokens : List Token} {call : Rule → Growth → Except Failure Growth} {limit : Option Nat}
  {growth after : Growth} {operand : NodeKind} {power right : Nat} {value : Unit}
  (furnishes : Furnishes tokens call)
include furnishes

/-- What is read with care and reads no operators makes only complete nodes. -/
theorem grow_careful {α : Type} {given : α → Prop} {parser : Parser α}
    (careful : parser.Careful NodeKind.IsSimple Rule.IsPlain given) {value : α}
    (grown : parser.grow call limit growth = .ok (value, after)) :
    given value ∧ growth.Onward tokens after :=
  (kept_onward tokens limit).grow_careful furnishes.plain careful grown

/-- An operand that is asked for is supplied along the tokens. -/
theorem grow_operand
    (grown : (Parser.call (.expression power)).grow call limit growth = .ok (value, after)) :
    growth.Supplies after ∧ growth.Onward tokens after :=
  ⟨furnishes.expression (grow_call_ok.mp grown), furnishes.plain (Rule.isPlain_expression _) (grow_call_ok.mp grown)⟩

/-- An operator makes a complete node of the operands on both of its sides. -/
theorem grow_rightOperand {kind : NodeKind} (isExpression : kind.isExpression = true)
    (both : kind.operandCount ≤ 2) (apart : kind ≠ .concat) (closed : kind ≠ .index)
    (has : growth.HasOperand)
    (grown : (Grammar.rightOperand right kind).grow call limit growth = .ok (value, after)) :
    growth.Onward tokens after ∧ after.HasOperand := by
  obtain ⟨read, last, bumped, called, rfl⟩ := grow_rightOperand_ok grown
  obtain ⟨added, siblings, -, supplied⟩ := furnishes.expression called
  refine ⟨?_, hasOperand_of_node rfl isExpression⟩
  -- The node begins with the operand that was there, and ends with the one that was asked for.
  refine ((Onward.bump bumped).trans (furnishes.plain (Rule.isPlain_expression _) called)).wrap fun clean along => ?_
  rw [siblings, List.reverse_append, ← List.append_assoc]
  refine (supplied clean).complete along apart closed ?_
  rw [operandTotal_append, operandTotal_reverse]
  have left := has.total
  omega

/-- Operands that are joined make a complete node, as the right one begins there. -/
theorem grow_adjoined (begins : growth.next.kind.startsOperand = true) (has : growth.HasOperand)
    (grown : (Grammar.adjoined power).grow call limit growth = .ok (value, after)) :
    growth.Onward tokens after ∧ after.HasOperand := by
  obtain ⟨last, called, rfl⟩ := grow_wrapIn_ok grown
  obtain ⟨⟨added, siblings, starts, -⟩, onward⟩ := furnishes.grow_operand called
  refine ⟨onward.wrap fun _ _ => .all ?_, hasOperand_of_node rfl rfl⟩
  -- The operand in the frame is one, and the one that begins here is another.
  have left : 0 < expressionCount growth.siblings := has
  have second : 0 < expressionCount added := starts begins
  rw [siblings]
  simp only [NodeKind.operandCount, List.reverse_append, expressionCount_append,
    expressionCount_reverse]
  omega

/-- A choice is complete, whose first branch is followed by a colon unless there are errors. -/
theorem grow_branches (has : growth.HasOperand)
    (grown : (Grammar.branches power).grow call limit growth = .ok (value, after)) :
    growth.Onward tokens after ∧ after.HasOperand := by
  obtain ⟨last, body, rfl⟩ := grow_wrapIn_ok grown
  obtain ⟨_, read, bumped, body⟩ := grow_bind_ok.mp body
  obtain ⟨_, middle, first, body⟩ := grow_bind_ok.mp body
  obtain ⟨found, between, colon, body⟩ := grow_bind_ok.mp body
  obtain ⟨⟨firstAdded, firstSiblings, -, firstSupplied⟩, firstOnward⟩ :=
    furnishes.grow_operand first
  have colonOnward := (furnishes.grow_careful (careful_expect rfl) colon).2
  obtain ⟨⟨passed, colonSiblings, -⟩, colonClean⟩ := grow_expect_ok colon
  have begins := ((Onward.bump (grow_bump_ok.mp bumped)).trans firstOnward).trans colonOnward
  refine ⟨?_, hasOperand_of_node rfl rfl⟩
  split at body
  · obtain ⟨⟨lastAdded, lastSiblings, -, lastSupplied⟩, lastOnward⟩ := furnishes.grow_operand body
    refine (begins.trans lastOnward).wrap fun clean along => ?_
    rw [lastSiblings, List.reverse_append, ← List.append_assoc]
    -- The first branch has not been cut off, as the colon would be missing then.
    have colonThere := lastOnward.errors clean
    cases firstSupplied (colonOnward.errors colonThere) with
    | operand there =>
      refine (lastSupplied clean).complete along nofun nofun ?_
      have left := has.total
      rw [colonSiblings, firstSiblings]
      simp only [NodeKind.operandCount, List.reverse_append, operandTotal_append,
        operandTotal_reverse]
      omega
    | cutOff ends => exact absurd colonThere (expect_of_cutsOff ends rfl colon)
  · rename_i missed
    obtain ⟨-, rfl⟩ := grow_pure_ok.mp body
    exact begins.wrap fun clean _ => absurd (colonClean clean).1 missed

/-- A range needs no upper end. -/
theorem grow_upperEnd
    (grown : (Grammar.upperEnd power).grow call limit growth = .ok (value, after)) :
    growth.Onward tokens after ∧ after.HasOperand := by
  obtain ⟨last, body, rfl⟩ := grow_wrapIn_ok grown
  obtain ⟨_, read, bumped, rest⟩ := grow_bind_ok.mp body
  -- The kind of the node asks for no operands at all.
  have upper := (furnishes.grow_careful (careful_unless (careful_call (Rule.isPlain_expression _) rfl)) rest).2
  exact ⟨((Onward.bump (grow_bump_ok.mp bumped)).trans upper).wrap fun _ _ => .of_isSimple rfl,
    hasOperand_of_node rfl rfl⟩

/-- The upper end of a slice comes after what is there. -/
theorem adds_sliceEnd (grown : Grammar.sliceEnd.grow call limit growth = .ok (value, after)) :
    growth.Adds after (fun _ => True) ∧ (growth.CutsOff → after.CutsOff) := by
  obtain ⟨found, between, colon, rest⟩ := grow_bind_ok.mp grown
  obtain ⟨passed, colonSiblings, -⟩ := adds_accept colon
  have begins : growth.Adds between fun _ => True := ⟨passed, colonSiblings, fun _ _ => trivial⟩
  split at rest
  · -- After the colon either the bracket follows or another operand is asked for.
    rename_i matched
    obtain rfl : found = true := matched
    refine ⟨begins.trans ?_, fun cut => absurd (accept_of_cutsOff cut rfl colon).1 nofun⟩
    obtain ⟨isClosed, looked, tested, rest⟩ := grow_bind_ok.mp rest
    obtain ⟨_, look, -⟩ := grow_test_ok tested
    obtain ⟨trivia, siblings, -⟩ := adds_look look
    refine Adds.trans ⟨trivia, siblings, fun _ _ => trivial⟩ ?_
    split at rest
    · obtain ⟨-, rfl⟩ := grow_pure_ok.mp rest
      exact ⟨[], rfl, fun _ _ => trivial⟩
    · obtain ⟨⟨added, more, -⟩, -⟩ := furnishes.grow_operand rest
      exact ⟨added, more, fun _ _ => trivial⟩
  · obtain ⟨-, rfl⟩ := grow_pure_ok.mp rest
    rename_i missed
    exact ⟨begins, fun cut => (accept_of_cutsOff cut rfl colon).2⟩

/-- An index is complete, which is followed by a bracket unless there are errors. -/
theorem grow_indexed (has : growth.HasOperand)
    (grown : Grammar.indexed.grow call limit growth = .ok (value, after)) :
    growth.Onward tokens after ∧ after.HasOperand := by
  obtain ⟨last, body, rfl⟩ := grow_wrapIn_ok grown
  obtain ⟨_, opened, opening, body⟩ := grow_bind_ok.mp body
  obtain ⟨_, middle, index, body⟩ := grow_bind_ok.mp body
  obtain ⟨_, between, upper, closing⟩ := grow_bind_ok.mp body
  obtain ⟨found, closed, bracket, returned⟩ := grow_bind_ok.mp closing
  obtain ⟨-, rfl⟩ := grow_pure_ok.mp returned
  obtain ⟨⟨added, siblings, -, supplied⟩, indexOnward⟩ := furnishes.grow_operand index
  have openOnward := (furnishes.grow_careful (careful_require rfl) opening).2
  have upperOnward := (furnishes.grow_careful ((careful_accept rfl).bind fun _ _ =>
    careful_when (careful_unless (careful_call (Rule.isPlain_expression _) rfl))) upper).2
  have closeOnward := (furnishes.grow_careful (careful_expect rfl) bracket).2
  obtain ⟨⟨passed, upperSiblings, -⟩, stillCut⟩ := furnishes.adds_sliceEnd upper
  obtain ⟨⟨trivia, closeSiblings, -⟩, -⟩ := grow_expect_ok bracket
  refine ⟨(((openOnward.trans indexOnward).trans upperOnward).trans closeOnward).wrap
    fun clean _ => ?_, hasOperand_of_node rfl rfl⟩
  have left := has.total
  -- What was read comes after the opening bracket, in the order of the text.
  have children : closed.siblings = trivia ++ (passed ++ (added ++ opened.siblings)) := by
    rw [closeSiblings, upperSiblings, siblings]
  rw [children]
  -- The index has not been cut off, as the bracket would be missing then.
  cases supplied (upperOnward.errors (closeOnward.errors clean)) with
  | operand there =>
    refine .empty nofun ?_
    simp only [NodeKind.operandCount, List.reverse_append, operandTotal_append,
      operandTotal_reverse]
    omega
  | cutOff ends => exact absurd clean (expect_of_cutsOff (stillCut ends) rfl bracket)

/-- A group makes a complete node, which is an operand. -/
theorem grow_group {made : NodeKind}
    (grown : Grammar.group.grow call limit growth = .ok (made, after)) :
    growth.Onward tokens after ∧ after.HasOperand := by
  obtain ⟨kinds, onward⟩ := furnishes.grow_careful
    (Grammar.careful_group (fun _ simple => simple) fun _ plain => plain) grown
  obtain ⟨inner, -, rfl⟩ := grow_node_ok.mp grown
  -- Both kinds of groups are expressions.
  exact ⟨onward, hasOperand_of_node rfl (by rcases kinds with rfl | rfl <;> rfl)⟩

/-- A call or a cast makes a complete node, which is an operand. -/
theorem grow_application {made : NodeKind}
    (grown : Grammar.application.grow call limit growth = .ok (made, after)) :
    growth.Onward tokens after ∧ after.HasOperand := by
  obtain ⟨kinds, onward⟩ := furnishes.grow_careful
    (Grammar.careful_application (fun _ simple => simple) fun _ plain => plain) grown
  obtain ⟨-, inner, -, rfl⟩ := grow_wrap_ok.mp grown
  -- A call and a cast are expressions.
  exact ⟨onward, hasOperand_of_node rfl (by rcases kinds with rfl | rfl <;> rfl)⟩

/-- An operand can be followed by operators once it is made. -/
theorem grow_further {α : Type} {first : Parser α} {kind : α → NodeKind}
    (makes : ∀ {made between}, first.grow call limit growth = .ok (made, between) →
      growth.Onward tokens between ∧ between.HasOperand)
    (grown : (first >>= fun made => Parser.call (.operators (kind made) power)).grow call limit growth
      = .ok (value, after)) :
    growth.Onward tokens after ∧ after.HasOperand := by
  obtain ⟨made, between, begins, called⟩ := grow_bind_ok.mp grown
  obtain ⟨onward, has⟩ := makes begins
  obtain ⟨further, still⟩ := furnishes.operators (grow_call_ok.mp called) has
  exact ⟨onward.trans further, still⟩

/-- A name after an operand is joined to it or left alone. -/
theorem grow_name (has : growth.HasOperand)
    (grown : (Grammar.infixed operand power right .name).grow call limit growth
      = .ok (value, after)) : growth.Onward tokens after ∧ after.HasOperand := by
  dsimp only [Grammar.infixed] at grown
  split at grown
  · obtain ⟨joins, looked, tested, rest⟩ := grow_bind_ok.mp grown
    obtain ⟨symbol, look, matched⟩ := grow_test_ok tested
    obtain ⟨seen, next, -⟩ := look_ok look
    have still := has.adds (adds_look look)
    split at rest
    · rename_i isJoined
      -- A name and the two kinds of literals begin operands.
      have begins : looked.next.kind.startsOperand = true := by
        rw [next, ← seen]
        simp only [← matched, List.contains_iff_mem, List.mem_cons, List.not_mem_nil, or_false]
          at isJoined
        rcases isJoined with kind | kind | kind <;> rw [kind] <;> rfl
      obtain ⟨onward, joined⟩ := furnishes.grow_adjoined begins still rest
      exact ⟨(Onward.look look).trans onward, joined⟩
    · obtain ⟨-, rfl⟩ := grow_pure_ok.mp rest
      exact ⟨.look look, still⟩
  · obtain ⟨-, rfl⟩ := grow_pure_ok.mp grown
    exact ⟨.refl _, has⟩

/-- A binary operator and all operators after it make only complete nodes. -/
theorem grow_infixed {form : InfixForm} (forms : growth.next.kind.infixForm? = some form)
    (has : growth.HasOperand)
    (grown : (Grammar.infixed operand power right form).grow call limit growth = .ok (value, after)) :
    growth.Onward tokens after ∧ after.HasOperand := by
  -- The operand before the operator is there, and each form brings those after it.
  cases form with
  | binary made =>
    obtain ⟨isExpression, both, apart, closed⟩ :=
      TokenKind.operandCount_infixNode? (TokenKind.infixForm?_binary forms).1
    exact furnishes.grow_further
      (furnishes.grow_rightOperand isExpression (Nat.le_of_eq both) apart closed has) grown
  | choice => exact furnishes.grow_further (furnishes.grow_branches has) grown
  | range => exact furnishes.grow_further furnishes.grow_upperEnd grown
  | name => exact furnishes.grow_name has grown

/-- The operators after an operand make only complete nodes. -/
theorem grow_operators (has : growth.HasOperand)
    (grown : (Grammar.operators operand power).grow call limit growth = .ok (value, after)) :
    growth.Onward tokens after ∧ after.HasOperand := by
  obtain ⟨symbol, looked, look, rest⟩ := grow_bind_ok.mp grown
  obtain ⟨rfl, next, -⟩ := look_ok look
  replace has := has.adds (adds_look look)
  suffices further : looked.Onward tokens after ∧ after.HasOperand from
    ⟨(Onward.look look).trans further.1, further.2⟩
  rw [← next] at rest
  dsimp only at rest
  -- One case for each way to continue: the operand ends there, or another is made and goes on.
  cases continues : looked.next.kind.continuation operand with
  | stop =>
    rw [continues] at rest
    obtain ⟨-, rfl⟩ := grow_pure_ok.mp rest
    exact ⟨.refl _, has⟩
  | call =>
    rw [continues] at rest
    exact furnishes.grow_further furnishes.grow_application rest
  | index =>
    rw [continues] at rest
    exact furnishes.grow_further (furnishes.grow_indexed has) rest
  | access made =>
    rw [continues] at rest
    refine furnishes.grow_further (furnishes.grow_rightOperand ?_ ?_ ?_ ?_ has) rest <;>
      rcases TokenKind.eq_of_access continues with rfl | rfl <;> first | rfl | nofun
  | step =>
    rw [continues] at rest
    refine furnishes.grow_further (fun grown => ?_) rest
    obtain ⟨last, bumped, rfl⟩ := grow_wrapIn_ok grown
    exact ⟨(Onward.bump (grow_bump_ok.mp bumped)).wrap fun _ _ => .of_isSimple rfl,
      hasOperand_of_node rfl rfl⟩
  | string =>
    rw [continues] at rest
    exact furnishes.grow_further
      (furnishes.grow_adjoined (TokenKind.startsOperand_of_string continues) has) rest
  | regroup =>
    rw [continues] at rest
    -- The operand of the outer frame stays beside the group.
    obtain ⟨inner, inside, rfl⟩ := grow_frame_ok.mp rest
    obtain ⟨onward, -⟩ := furnishes.grow_further furnishes.grow_group inside
    exact ⟨onward.frame, has.adds ⟨inner.siblings, rfl, fun _ _ => trivial⟩⟩
  | infixed left right form =>
    rw [continues] at rest
    dsimp only at rest
    split at rest
    · obtain ⟨-, rfl⟩ := grow_pure_ok.mp rest
      exact ⟨.refl _, has⟩
    · exact furnishes.grow_infixed (TokenKind.continuation_infixed continues).2 has rest

omit furnishes in
/-- An operand is only missing without an error where the statement has ended. -/
theorem grow_missing (begins : growth.next.kind.operandStart = .nothing)
    (grown : (do
      if ← atStatementEnd then return
      else if ← atEnd then return
      else
        report (.expectedExpression growth.next.kind)
        bumpAs .skipped : Parser Unit).grow call limit growth = .ok (value, after)) :
    growth.Supplies after ∧ growth.Onward tokens after := by
  obtain ⟨added, siblings, -⟩ := adds_missing grown
  -- No operand begins here, so it only matters whether the statement ends.
  suffices (after.report.errors = [] → after.CutsOff) ∧ growth.Onward tokens after from
    ⟨⟨added, siblings, by simp [TokenKind.startsOperand, begins], fun clean =>
      .cutOff (this.1 clean)⟩, this.2⟩
  obtain ⟨symbol, first, look, ⟨ended, rfl⟩ | ⟨again, second, relook, further⟩⟩ :=
    grow_missing_ok grown
  · -- What ends a statement and begins no operand is a line break.
    obtain ⟨rfl, -, -⟩ := look_ok look
    refine ⟨fun _ => ⟨_, sees_of_look look, ?_⟩, .look look⟩
    rw [TokenKind.eq_hardBreak_of_endsStatement _ begins ended]
    rfl
  · have onward : growth.Onward tokens second := (Onward.look look).trans (.look relook)
    rcases further with ⟨final, rfl⟩ | ⟨read, bumped, rfl⟩
    · exact ⟨fun _ => ⟨again, sees_of_look relook, by rw [final]; rfl⟩, onward⟩
    · refine ⟨fun clean => ?_, onward.trans ((Onward.addMistake _).trans
        ((Onward.bump bumped).node fun _ _ => .of_isSimple rfl))⟩
      -- The error was noted before the token was passed over.
      exact absurd ((bump_keeps bumped).1 ▸ clean) (errors_addMistake rfl)

omit furnishes in
/-- A token that is an operand by itself makes a complete node. -/
theorem grow_atom {kind : TokenKind} {made : NodeKind} (begins : kind.operandStart = .atom made)
    (grown : (bumpAs made).grow call limit growth = .ok (value, after)) :
    growth.Onward tokens after ∧ after.HasOperand := by
  obtain ⟨last, bumped, rfl⟩ := grow_nodeOf_ok grown
  have isOrdinary := TokenKind.isOrdinary_atom begins
  simp only [NodeKind.isOrdinary, Bool.and_eq_true, beq_iff_eq] at isOrdinary
  exact ⟨(Onward.bump (grow_bump_ok.mp bumped)).node fun _ _ => .of_isSimple isOrdinary.1.1,
    hasOperand_of_node rfl (TokenKind.isExpression_atom begins)⟩

/-- A prefix operator makes a complete node of its operand. -/
theorem grow_prefixed
    (grown : (nodeOf .prefixed do
      bump
      Parser.call (.expression power)).grow call limit growth = .ok (value, after)) :
    growth.Onward tokens after ∧ after.HasOperand := by
  obtain ⟨last, body, rfl⟩ := grow_nodeOf_ok grown
  obtain ⟨_, read, bumped, operand⟩ := grow_bind_ok.mp body
  obtain ⟨⟨added, siblings, -, supplied⟩, onward⟩ := furnishes.grow_operand operand
  refine ⟨((Onward.bump (grow_bump_ok.mp bumped)).trans onward).node fun clean along => ?_,
    hasOperand_of_node rfl rfl⟩
  rw [siblings, List.reverse_append]
  exact (supplied clean).complete along nofun nofun (Nat.le_add_left _ _)

/-- An operand that is begun in a frame of its own is supplied to the outer one. -/
theorem grow_begun {α : Type} {first : Parser α} {kind : α → NodeKind}
    (makes : ∀ {origin made between}, first.grow call limit origin = .ok (made, between) →
      origin.Onward tokens between ∧ between.HasOperand)
    (grown : (frame (first >>= fun made => Parser.call (.operators (kind made) power))).grow call
      limit growth = .ok (value, after)) :
    growth.Supplies after ∧ growth.Onward tokens after := by
  obtain ⟨inner, inside, rfl⟩ := grow_frame_ok.mp grown
  obtain ⟨onward, has⟩ := furnishes.grow_further makes inside
  exact ⟨.leave has, onward.frame⟩

/-- An operand is supplied where it is asked for, and all of its nodes are complete. -/
theorem grow_expression
    (grown : (Grammar.expression power).grow call limit growth = .ok (value, after)) :
    growth.Supplies after ∧ growth.Onward tokens after := by
  obtain ⟨symbol, looked, look, rest⟩ := grow_bind_ok.mp grown
  obtain ⟨rfl, next, -⟩ := look_ok look
  suffices further : looked.Supplies after ∧ looked.Onward tokens after from
    ⟨further.1.of_look look, (Onward.look look).trans further.2⟩
  rw [← next] at rest
  dsimp only at rest
  -- One case for each way to begin, of which only the last may leave the operand out.
  cases begins : looked.next.kind.operandStart with
  | atom made =>
    rw [begins] at rest
    exact furnishes.grow_begun (grow_atom begins) rest
  | group =>
    rw [begins] at rest
    exact furnishes.grow_begun furnishes.grow_group rest
  | operator =>
    rw [begins] at rest
    exact furnishes.grow_begun furnishes.grow_prefixed rest
  | empty =>
    rw [begins] at rest
    have read := grow_bump_ok.mp rest
    obtain ⟨token, trivia, same, -, siblings, -⟩ := bump_ok read
    have kind : token.kind = .sign .semicolon := by
      rw [← TokenKind.eq_semicolon_of_empty begins, ← same]
      rfl
    -- The semicolon itself is the operand.
    have found : 0 < operandTotal (token.leaf :: trivia) := by
      simp [operandTotal, Token.leaf, kind, Tree.isSemicolon]
    exact ⟨⟨_, siblings, by simp [TokenKind.startsOperand, begins], fun _ => .operand found⟩,
      .bump read⟩
  | nothing =>
    rw [begins] at rest
    exact grow_missing begins rest

/-- The body of every rule but that of operators makes only complete nodes. -/
theorem grow_plain {rule : Rule} (isPlain : rule.IsPlain)
    (grown : rule.body.grow call limit growth = .ok (value, after)) :
    growth.Onward tokens after := by
  -- Rules that make no node of operands need only be careful.
  have other (reads : rule.isStatement = true ∨ rule = .declaration ∨ rule = .recovery) :
      growth.Onward tokens after :=
    (kept_onward tokens limit).grow_body (fun _ simple => simple) (fun _ plain => plain)
      furnishes.plain reads grown
  cases rule with
  | operators operand power => exact isPlain.elim
  | expression power => exact (furnishes.grow_expression grown).2
  | declaration => exact other (.inr (.inl rfl))
  | recovery => exact other (.inr (.inr rfl))
  | _ => exact other (.inl rfl)

end Furnishes

/-- Every rule supplies operands and makes only complete nodes, however deeply its calls may nest. -/
theorem Rule.furnishes_grow (tokens : List Token) (limit : Option Nat) (depth : Nat) :
    Furnishes tokens fun rule => rule.grow limit depth := by
  -- Calls nest less deeply than the rule that makes them.
  induction depth with
  | zero => exact ⟨(nomatch ·), (nomatch ·), fun _ => (nomatch ·)⟩
  | succ depth ih =>
    refine ⟨fun grown => ?_, fun grown has => ?_, fun isPlain grown => ?_⟩
    · exact (ih.grow_expression (Rule.grow_ok.mp grown)).1
    · exact ih.grow_operators has (Rule.grow_ok.mp grown)
    · exact ih.grow_plain isPlain (Rule.grow_ok.mp grown)

end Dxl
