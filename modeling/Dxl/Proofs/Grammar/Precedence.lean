import Dxl.Proofs.Grammar.Conduct

/-! Precedence: an operand ends before an operator that is too loose for it, and every operator takes in operands that are tight enough. -/

namespace Dxl

namespace TokenKind

/-- No binary operator that is as tight as the given power comes next; a name may, which is an operand by itself. -/
def Stops (kind : TokenKind) (power : Nat) : Prop :=
  ∀ left right, kind.infixPower? = some (left, right) → kind = .name ∨ left < power

/-- Whether an operand begins that is not empty. -/
def startsOperand (kind : TokenKind) : Bool :=
  match kind.operandStart with
  | .empty | .nothing => false
  | _ => true

/-- An access makes no node of two operands. -/
theorem isInfix_access {kind : TokenKind} {operand made : NodeKind}
    (continues : kind.continuation operand = .access made) : made.isInfix = false := by
  rcases eq_of_access continues with rfl | rfl <;> rfl

end TokenKind

namespace Tree

/-- A tree has no operator that is looser than the given power. -/
def Binds (tree : Tree) (power : Nat) : Prop :=
  ∀ inner, tree.precedence? = some inner → power ≤ inner

/-- A node of two operands lacks the right one, or is followed by nothing that its right operand could take in. -/
def Settled (tree : Tree) (next : TokenKind) : Prop :=
  ∀ inner, tree.precedence? = some inner → tree.lacksRight = true ∨ next.Stops (inner - 1)

/-- A tree that is neither an operand nor made by a binary operator. -/
structure Inert (tree : Tree) : Prop where
  ordered : tree.Ordered
  loose : tree.precedence? = none
  foreign : tree.isOperand = false

/-- A leaf is no operand. -/
theorem inert_leaf (kind : TokenKind) (text : String) : (leaf (.token kind) text).Inert :=
  ⟨.leaf kind text, rfl, rfl⟩

variable {kind : NodeKind} {left : Tree} {trivia rest : List Tree} {operator : TokenKind}
  {text : String} {outer inner : Nat}

/-- The precedence of a node of two operands is that of its operator. -/
theorem precedence?_operator (passed : ∀ tree ∈ trivia, tree.isTrivia = true)
    (proper : operator.isTrivia = false) (isInfix : kind.isInfix = true)
    (powers : operator.infixPower? = some (outer, inner)) :
    (node (.node kind) (left :: (trivia ++ .leaf (.token operator) text :: rest))).precedence?
      = some outer := by
  simp [precedence?, infixParts?_node isInfix passed proper, TokenKind.precedence?, powers]

/-- A node of two operands is as tight as its operator. -/
theorem binds_operator {power : Nat} (passed : ∀ tree ∈ trivia, tree.isTrivia = true)
    (proper : operator.isTrivia = false) (isInfix : kind.isInfix = true)
    (powers : operator.infixPower? = some (outer, inner)) (tight : power ≤ outer) :
    Binds (.node (.node kind) (left :: (trivia ++ .leaf (.token operator) text :: rest))) power := by
  intro other found
  rw [precedence?_operator passed proper isInfix powers] at found
  cases found
  exact tight

/-- A node of two operands is settled if the right one was taken in up to an operator that is too loose, or is missing. -/
theorem settled_operator {next : TokenKind} (passed : ∀ tree ∈ trivia, tree.isTrivia = true)
    (proper : operator.isTrivia = false) (isInfix : kind.isInfix = true)
    (powers : operator.infixPower? = some (outer, inner))
    (ends : next.Stops inner ∨ ∀ tree ∈ rest, tree.isOperand = false) :
    Settled (.node (.node kind) (left :: (trivia ++ .leaf (.token operator) text :: rest)))
      next := by
  intro other found
  rw [precedence?_operator passed proper isInfix powers] at found
  cases found
  rcases ends with stops | missing
  · -- The right power of an operator is its precedence less one.
    obtain ⟨step, -⟩ := TokenKind.infixPower?_spec powers
    have same : outer - 1 = inner := by omega
    rw [same]
    exact .inr stops
  · rw [lacksRight, infixParts?_node isInfix passed proper]
    exact .inl (by simpa using missing)

/-- An operator that a settled operand stops at nests with it and with operands that are tight enough. -/
theorem nests_operator (passed : ∀ tree ∈ trivia, tree.isTrivia = true)
    (proper : operator.isTrivia = false) (makes : operator.infixNode? = some kind)
    (powers : operator.infixPower? = some (outer, inner)) (unnamed : operator ≠ .name)
    (settled : left.Settled operator) (binds : ∀ tree ∈ rest, tree.Binds inner) :
    Nests (.node (.node kind) (left :: (trivia ++ .leaf (.token operator) text :: rest))) := by
  have isInfix := TokenKind.isInfix_of_infixNode? makes
  obtain ⟨step, -⟩ := TokenKind.infixPower?_spec powers
  have precedence : operator.precedence? = some outer := by simp [TokenKind.precedence?, powers]
  refine ⟨left, operator, rest, outer, infixParts?_node isInfix passed proper, makes, precedence,
    ?_, ?_⟩
  · intro tight found
    rcases settled tight found with lacks | stops
    · exact .inr lacks
    · -- The right operand of the left one would have taken in any tighter operator.
      rcases stops outer inner powers with name | loose
      · exact absurd name unnamed
      · exact .inl (by omega)
  · intro right member tight found
    have bound := binds right member tight found
    omega

end Tree

namespace Growth

/-- The frame holds a finished operand and trivia after it. -/
structure Ripe (growth : Growth) (power : Nat) : Prop where
  ordered : growth.Each Tree.Ordered
  operand : ∃ operand trivia, growth.siblings = trivia ++ [operand]
    ∧ (∀ tree ∈ trivia, tree.isTrivia = true) ∧ operand.Binds power
    ∧ operand.Settled growth.next.kind

/-- The frame holds operands that are tight enough, and no operator comes next that is. -/
structure Finished (growth : Growth) (power : Nat) : Prop where
  ordered : growth.Each Tree.Ordered
  binds : growth.Each fun tree => tree.Binds power
  stops : growth.next.kind.Stops power

/-- An operand is added that is tight enough and ends before an operator that is not, unless nothing is there that begins one. -/
structure TakesOperand (growth after : Growth) (power : Nat) : Prop where
  ordered : growth.Each Tree.Ordered → after.Each Tree.Ordered
  binds : growth.Adds after fun tree => tree.Binds power
  stops : growth.next.kind.startsOperand = true → after.next.kind.Stops power
  nothing : growth.next.kind.startsOperand = false →
    growth.Adds after fun tree => tree.isOperand = false

variable {growth after : Growth} {power : Nat}

/-- A single node that no binary operator made is a finished operand. -/
theorem Ripe.plain {kind : NodeKind} {children : List Tree}
    (siblings : growth.siblings = [.node (.node kind) children]) (plain : kind.isInfix = false)
    (ordered : growth.Each Tree.Ordered) (power : Nat) : growth.Ripe power := by
  -- It has no operator of its own that could be too loose.
  have none := Tree.precedence?_of_not_isInfix plain children
  exact ⟨ordered, _, [], siblings, by simp, by simp [Tree.Binds, none], by simp [Tree.Settled, none]⟩

/-- A look changes nothing about a finished operand. -/
theorem Ripe.look (ripe : growth.Ripe power) {limit : Option Nat} {symbol : Symbol}
    (looked : growth.look limit = .ok (symbol, after)) : after.Ripe power := by
  obtain ⟨-, next, added, siblings, passed⟩ := look_ok looked
  obtain ⟨operand, trivia, frame, all, binds, settled⟩ := ripe.operand
  refine ⟨ripe.ordered.look .leaf looked, operand, added ++ trivia, ?_, ?_, binds, next ▸ settled⟩
  · rw [siblings, frame, List.append_assoc]
  · intro tree member
    rcases List.mem_append.mp member with fresh | earlier
    · exact passed tree fresh
    · exact all tree earlier

/-- A finished operand is tight enough, and trivia has no operators. -/
theorem Ripe.binds (ripe : growth.Ripe power) : growth.Each fun tree => tree.Binds power := by
  obtain ⟨operand, trivia, frame, all, binds, -⟩ := ripe.operand
  intro tree member
  rw [frame] at member
  -- Only the operand can be an operator, and it is the last tree.
  rcases List.mem_append.mp member with passed | last
  · intro inner found
    rw [Tree.precedence?_of_isTrivia (all tree passed)] at found
    cases found
  · rw [List.mem_singleton.mp last]
    exact binds

/-- A finished operand that no tight operator follows is all that the frame will hold. -/
theorem Ripe.finish (ripe : growth.Ripe power) (stops : growth.next.kind.Stops power) :
    growth.Finished power :=
  ⟨ripe.ordered, ripe.binds, stops⟩

/-- What an inner frame holds in the end is held by the outer one. -/
theorem Finished.leave {inner : Growth} (finished : inner.Finished power)
    (ordered : growth.Each Tree.Ordered) (binds : growth.Each fun tree => tree.Binds power) :
    (growth.leave inner).Finished power :=
  ⟨ordered.leave finished.ordered, binds.leave finished.binds, finished.stops⟩

/-- What a new frame holds in the end is the operand that was to be added after a look. -/
theorem Finished.takesOperand {looked inner : Growth} {limit : Option Nat} {symbol : Symbol}
    (finished : inner.Finished power) (look : growth.look limit = .ok (symbol, looked))
    (begins : growth.next.kind.startsOperand = true) :
    growth.TakesOperand (looked.leave inner) power := by
  obtain ⟨-, -, trivia, siblings, passed⟩ := look_ok look
  refine ⟨fun ordered => (ordered.look .leaf look).leave finished.ordered,
    ⟨inner.siblings ++ trivia, by simp [Growth.leave, siblings], fun tree member => ?_⟩,
    fun _ => finished.stops, by simp [begins]⟩
  -- What is new comes from the finished frame, apart from trivia.
  rcases List.mem_append.mp member with fresh | earlier
  · exact finished.binds tree fresh
  · intro inner found
    rw [Tree.precedence?_of_isTrivia (passed tree earlier)] at found
    cases found

end Growth

namespace Growth

variable {growth after : Growth} {limit : Option Nat}

/-- A look adds nothing that is an operand. -/
theorem adds_look {symbol : Symbol} (looked : growth.look limit = .ok (symbol, after)) :
    growth.Adds after Tree.Inert := by
  obtain ⟨-, -, trivia, siblings, passed⟩ := look_ok looked
  exact ⟨trivia, siblings, fun tree member => Each.of_isTrivia Tree.inert_leaf (passed tree member)⟩

/-- A token that is read is no operand. -/
theorem adds_bump (bumped : growth.bump = .ok after) : growth.Adds after Tree.Inert := by
  obtain ⟨token, trivia, -, -, siblings, passed⟩ := bump_ok bumped
  refine ⟨token.leaf :: trivia, siblings, fun tree member => ?_⟩
  rcases List.mem_cons.mp member with rfl | earlier
  · exact Tree.inert_leaf _ _
  · exact Each.of_isTrivia Tree.inert_leaf (passed tree earlier)

/-- A node is no operand if it is not of such a kind and holds nothing that is one. -/
theorem adds_node {inner : Growth} {kind : NodeKind} (plain : kind.isInfix = false)
    (foreign : kind.isOperand = false) (adds : growth.enter.Adds inner Tree.Inert) :
    growth.Adds (growth.leave (inner.close kind)) Tree.Inert := by
  obtain ⟨added, siblings, inert⟩ := adds
  refine ⟨[.node (.node kind) inner.siblings.reverse], rfl, ?_⟩
  simp only [List.mem_singleton, forall_eq]
  refine ⟨.plain plain fun child member => ?_, Tree.precedence?_of_not_isInfix plain _, foreign⟩
  rw [siblings, enter, List.append_nil, List.mem_reverse] at member
  exact (inert child member).ordered

/-- Where no operand begins, nothing is taken but what is none. -/
theorem Adds.takesOperand (adds : growth.Adds after Tree.Inert)
    (nothing : growth.next.kind.startsOperand = false) (power : Nat) :
    growth.TakesOperand after power := by
  obtain ⟨added, siblings, inert⟩ := adds
  refine ⟨?_, ⟨added, siblings, ?_⟩, by simp [nothing], ?_⟩
  · intro ordered
    exact ordered.adds ⟨added, siblings, fun tree member => (inert tree member).ordered⟩
  · -- What is inert has no operator that could be too loose.
    intro tree member inner found
    rw [(inert tree member).loose] at found
    cases found
  · intro _
    exact ⟨added, siblings, fun tree member => (inert tree member).foreign⟩

end Growth

/-- Rules heed the precedence of operators when they are called. -/
structure Heeds (call : Rule → Growth → Except Failure Growth) : Prop where
  expression : ∀ {power : Nat} {growth after : Growth}, call (.expression power) growth = .ok after →
    growth.TakesOperand after power
  operators : ∀ {operand : NodeKind} {power : Nat} {growth after : Growth},
    call (.operators operand power) growth = .ok after → growth.Ripe power → after.Finished power
  plain : ∀ (rule : Rule) {growth after : Growth}, rule.IsPlain → call rule growth = .ok after →
    growth.Each Tree.Ordered → after.Each Tree.Ordered

section

open Dxl.Parser Dxl.Growth

variable {call : Rule → Growth → Except Failure Growth} {limit : Option Nat}
  {growth after : Growth} {power : Nat} (heeds : Heeds call)
include heeds

/-- What makes no node of two operands keeps trees ordered. -/
theorem Heeds.grow_plain {α : Type} {parser : Parser α} {value : α}
    {post : α → Option Symbol → Prop} (obeys : parser.Obeys plainly none post)
    (ordered : growth.Each Tree.Ordered)
    (grown : parser.grow call limit growth = .ok (value, after)) :
    after.Each Tree.Ordered ∧ ∃ known, post value known := by
  obtain ⟨each, known, holds, -⟩ := grow_each .leaf (fun _ _ plain => Tree.Ordered.plain plain)
    (fun rule _ _ => heeds.plain rule) obeys growth.sees_none ordered grown
  exact ⟨each, known, holds⟩

/-- A node around an operand is a finished operand, unless a binary operator makes it. -/
theorem Heeds.grow_wrap {body : Parser NodeKind} {kind : NodeKind}
    (obeys : (wrap body).Obeys plainly none fun made _ => made.isInfix = false)
    (ordered : growth.Each Tree.Ordered)
    (grown : (wrap body).grow call limit growth = .ok (kind, after)) (power : Nat) :
    after.Ripe power := by
  obtain ⟨each, known, plain⟩ := heeds.grow_plain obeys ordered grown
  obtain ⟨-, inner, -, rfl⟩ := grow_wrap_ok.mp grown
  exact .plain rfl plain each power

/-- The first node in a frame is a finished operand, unless a binary operator makes it. -/
theorem Heeds.grow_node {body : Parser NodeKind} {kind : NodeKind}
    (obeys : (node body).Obeys plainly none fun made _ => made.isInfix = false)
    (grown : (node body).grow call limit growth.enter = .ok (kind, after)) (power : Nat) :
    after.Ripe power := by
  obtain ⟨each, known, plain⟩ := heeds.grow_plain obeys (by simp [Each, enter]) grown
  obtain ⟨inner, -, rfl⟩ := grow_node_ok.mp grown
  exact .plain rfl plain each power

/-- A node of one kind around an operand is a finished operand, unless a binary operator makes it. -/
theorem Heeds.grow_wrapIn {body : Parser Unit} {kind : NodeKind} {value : Unit}
    (plain : kind.isInfix = false) (obeys : body.Obeys plainly none fun _ _ => True)
    (ordered : growth.Each Tree.Ordered)
    (grown : (wrapIn kind body).grow call limit growth = .ok (value, after)) (power : Nat) :
    after.Ripe power := by
  obtain ⟨made, between, wrapped, rest⟩ := grow_bind_ok.mp grown
  obtain ⟨-, rfl⟩ := grow_pure_ok.mp rest
  exact heeds.grow_wrap (by simpa [plainly, NodeKind.IsPlain, plain] using obeys) ordered wrapped power

/-- The first node of one kind in a frame is a finished operand, unless a binary operator makes it. -/
theorem Heeds.grow_nodeOf {body : Parser Unit} {kind : NodeKind} {value : Unit}
    (plain : kind.isInfix = false) (obeys : body.Obeys plainly none fun _ _ => True)
    (grown : (nodeOf kind body).grow call limit growth.enter = .ok (value, after)) (power : Nat) :
    after.Ripe power := by
  obtain ⟨made, between, wrapped, rest⟩ := grow_bind_ok.mp grown
  obtain ⟨-, rfl⟩ := grow_pure_ok.mp rest
  exact heeds.grow_node (by simpa [plainly, NodeKind.IsPlain, plain] using obeys) wrapped power

omit heeds in
/-- An operator is read before its right operand, and the node is closed around both and the frame. -/
theorem grow_rightOperand_ok {kind : NodeKind} {right : Nat} {value : Unit}
    (grown : (Grammar.rightOperand right kind).grow call limit growth = .ok (value, after)) :
    ∃ read last, growth.enter.bump = .ok read ∧ call (.expression right) read = .ok last
      ∧ after = (growth.leave last).close kind := by
  obtain ⟨last, body, rfl⟩ := grow_wrapIn_ok grown
  -- Inside of the node there are only the operator and the call for its operand.
  obtain ⟨_, read, bumped, called⟩ := grow_bind_ok.mp body
  exact ⟨read, last, grow_bump_ok.mp bumped, grow_call_ok.mp called, rfl⟩

/-- An operator and its right operand make a finished operand together with the left one. -/
theorem Heeds.grow_rightOperand {kind : NodeKind} {left right : Nat} {value : Unit}
    (powers : growth.next.kind.infixPower? = some (left, right))
    (forms : growth.next.kind.infixForm? = some (.binary kind)) (tight : power ≤ left)
    (ripe : growth.Ripe power)
    (grown : (Grammar.rightOperand right kind).grow call limit growth = .ok (value, after)) :
    after.Ripe power := by
  obtain ⟨read, last, bumped, called, rfl⟩ := grow_rightOperand_ok grown
  have takes := heeds.expression called
  obtain ⟨token, passed, seen, proper, first, allPassed⟩ := bump_ok bumped
  obtain ⟨added, second, binds⟩ := takes.binds
  obtain ⟨operand, trivia, frame, allTrivia, -, settled⟩ := ripe.operand
  have operator : token.kind = growth.next.kind := congrArg Symbol.kind seen
  rw [← operator] at powers forms settled
  obtain ⟨makes, unnamed⟩ := TokenKind.infixForm?_binary forms
  have isInfix := TokenKind.isInfix_of_infixNode? makes
  -- The operand comes first in the node, then trivia, the operator and what follows it.
  have children : (growth.leave last).siblings.reverse
      = operand :: ((trivia.reverse ++ passed.reverse) ++ token.leaf :: added.reverse) := by
    simp [leave, second, first, frame, enter]
  have between : ∀ tree ∈ trivia.reverse ++ passed.reverse, tree.isTrivia = true := by
    intro tree member
    rcases List.mem_append.mp member with earlier | later
    · exact allTrivia tree (List.mem_reverse.mp earlier)
    · exact allPassed tree (List.mem_reverse.mp later)
  -- Both operands are ordered already, so that only the new node has to be looked at.
  have ordered : (growth.leave last).Each Tree.Ordered :=
    ripe.ordered.leave (takes.ordered (Each.bump (by simp [Each, enter]) .leaf bumped))
  refine ⟨.close (.node ?_ fun _ => ?_), _, [], rfl, by simp, ?_, ?_⟩
  · -- The children are ordered.
    exact fun child member => ordered child (List.mem_reverse.mp member)
  · -- The operator nests with the operands on both sides.
    rw [children]
    exact Tree.nests_operator between proper makes powers unnamed settled fun tree member =>
      binds tree (List.mem_reverse.mp member)
  · -- The node is as tight as its operator.
    rw [children]
    exact Tree.binds_operator between proper isInfix powers tight
  · rw [children]
    refine Tree.settled_operator between proper isInfix powers ?_
    -- The right operand has taken in all that is tight enough for it, or there is none.
    cases begins : read.next.kind.startsOperand with
    | true => exact .inl (takes.stops begins)
    | false =>
      obtain ⟨others, third, foreign⟩ := takes.nothing begins
      have same : others = added := List.append_cancel_right (third.symm.trans second)
      exact .inr fun tree member => foreign tree (same ▸ List.mem_reverse.mp member)

/-- An operand that is joined to another one ends before an operator that is too loose for it. -/
theorem Heeds.grow_adjoined {value : Unit} (begins : growth.next.kind.startsOperand = true)
    (grown : (Grammar.adjoined power).grow call limit growth = .ok (value, after)) :
    after.next.kind.Stops power := by
  obtain ⟨last, called, rfl⟩ := grow_wrapIn_ok grown
  exact (heeds.expression (grow_call_ok.mp called)).stops begins

/-- A name after an operand is joined to it or left alone, and either way nothing follows that is taken in. -/
theorem Heeds.grow_name {operand : NodeKind} {left right : Nat} {value : Unit}
    (powers : growth.next.kind.infixPower? = some (left, right))
    (named : growth.next.kind = .name) (ripe : growth.Ripe power)
    (grown : (Grammar.infixed operand power right .name).grow call limit growth
      = .ok (value, after)) : after.Finished power := by
  -- A name is never taken in as an operator.
  have stays : ∀ power, growth.next.kind.Stops power := fun _ _ _ _ => .inl named
  dsimp only [Grammar.infixed] at grown
  split at grown
  · -- Where names are joined, a look tells whether another operand follows.
    obtain ⟨joins, looked, tested, rest⟩ := grow_bind_ok.mp grown
    obtain ⟨symbol, look, -⟩ := grow_test_ok tested
    obtain ⟨-, next, -⟩ := look_ok look
    have ripe := ripe.look look
    split at rest
    · have joined := heeds.grow_wrapIn rfl (by simp [plainly, Rule.IsPlain]) ripe.ordered rest power
      have stops := heeds.grow_adjoined (by rw [next, named]; rfl) rest
      refine joined.finish fun outer inner found => ?_
      -- No binary operator but a name is so loose.
      obtain ⟨step, least⟩ := TokenKind.infixPower?_spec found
      rw [named] at powers
      cases powers
      rcases stops outer inner found with name | loose
      · exact .inl name
      · omega
    · obtain ⟨-, rfl⟩ := grow_pure_ok.mp rest
      exact ripe.finish (next ▸ stays power)
  · -- Elsewhere the name is left for an outer call.
    obtain ⟨-, rfl⟩ := grow_pure_ok.mp grown
    exact ripe.finish (stays power)

/-- A group and the operators after it leave nothing that is tight enough to be taken in. -/
theorem Heeds.grow_group {value : Unit}
    (grown : (do
      let made ← Grammar.group
      Parser.call (.operators made power)).grow call limit growth.enter = .ok (value, after)) :
    after.Finished power := by
  obtain ⟨made, between, node, called⟩ := grow_bind_ok.mp grown
  refine heeds.operators (grow_call_ok.mp called) (heeds.grow_node ?_ node power)
  -- What stands in the group is settled by the rules that it calls.
  simp [plainly, Grammar.acceptType, require, expect, Rule.IsPlain, NodeKind.IsPlain,
    NodeKind.isInfix, Mistake.TellsOf]

/-- A binary operator and its right operand finish an operand, together with all operators after them. -/
theorem Heeds.grow_infixed {operand : NodeKind} {left right : Nat} {form : InfixForm} {value : Unit}
    (powers : growth.next.kind.infixPower? = some (left, right))
    (forms : growth.next.kind.infixForm? = some form) (tight : power ≤ left)
    (ripe : growth.Ripe power)
    (grown : (Grammar.infixed operand power right form).grow call limit growth = .ok (value, after)) :
    after.Finished power := by
  cases form with
  -- Only this form makes a node of two operands, the others make nodes of other kinds.
  | binary made =>
    obtain ⟨_, between, made, called⟩ := grow_bind_ok.mp grown
    have finished := heeds.grow_rightOperand powers forms tight ripe made
    exact heeds.operators (grow_call_ok.mp called) finished
  | choice =>
    obtain ⟨_, between, made, called⟩ := grow_bind_ok.mp grown
    refine heeds.operators (grow_call_ok.mp called) (heeds.grow_wrapIn rfl ?_ ripe.ordered made power)
    simp [plainly, expect, Rule.IsPlain, Mistake.TellsOf]
  | range =>
    obtain ⟨_, between, made, called⟩ := grow_bind_ok.mp grown
    refine heeds.operators (grow_call_ok.mp called) (heeds.grow_wrapIn rfl ?_ ripe.ordered made power)
    simp [plainly, Rule.IsPlain]
  | name => exact heeds.grow_name powers (TokenKind.infixForm?_name forms) ripe grown

/-- The operators after a finished operand leave nothing that is tight enough to be taken in. -/
theorem Heeds.grow_operators {operand : NodeKind} {value : Unit} (ripe : growth.Ripe power)
    (grown : (Grammar.operators operand power).grow call limit growth = .ok (value, after)) :
    after.Finished power := by
  obtain ⟨symbol, looked, look, rest⟩ := grow_bind_ok.mp grown
  obtain ⟨rfl, next, -⟩ := look_ok look
  have ripe := ripe.look look
  rw [← next] at rest
  dsimp only at rest
  -- What comes next decides on how the operand goes on.
  cases continues : looked.next.kind.continuation operand with
  -- What follows is no binary operator.
  | stop =>
    rw [continues] at rest
    obtain ⟨-, rfl⟩ := grow_pure_ok.mp rest
    refine ripe.finish fun left right powers => ?_
    rw [TokenKind.infixPower?_of_stop continues] at powers
    cases powers
  | call =>
    rw [continues] at rest
    obtain ⟨made, between, applied, called⟩ := grow_bind_ok.mp rest
    refine heeds.operators (grow_call_ok.mp called) (heeds.grow_wrap ?_ ripe.ordered applied power)
    simp [plainly, Grammar.argumentList, Grammar.expressionStatement, require, expect, Rule.IsPlain,
      NodeKind.IsPlain, NodeKind.isInfix, Mistake.TellsOf]
  | index =>
    rw [continues] at rest
    obtain ⟨_, between, made, called⟩ := grow_bind_ok.mp rest
    refine heeds.operators (grow_call_ok.mp called) (heeds.grow_wrapIn rfl ?_ ripe.ordered made power)
    simp [plainly, Grammar.sliceEnd, require, expect, Rule.IsPlain, Mistake.TellsOf]
  | access kind =>
    rw [continues] at rest
    obtain ⟨_, between, made, called⟩ := grow_bind_ok.mp rest
    refine heeds.operators (grow_call_ok.mp called) (heeds.grow_wrapIn
      (TokenKind.isInfix_access continues) ?_ ripe.ordered made power)
    simp [plainly, Rule.IsPlain]
  | step =>
    rw [continues] at rest
    obtain ⟨_, between, made, called⟩ := grow_bind_ok.mp rest
    exact heeds.operators (grow_call_ok.mp called)
      (heeds.grow_wrapIn rfl (by simp [plainly]) ripe.ordered made power)
  | string =>
    rw [continues] at rest
    obtain ⟨_, between, made, called⟩ := grow_bind_ok.mp rest
    refine heeds.operators (grow_call_ok.mp called) (heeds.grow_wrapIn rfl ?_ ripe.ordered made power)
    simp [plainly, Rule.IsPlain]
  -- The operators after the group belong to the group.
  | regroup =>
    rw [continues] at rest
    obtain ⟨inner, inside, rfl⟩ := grow_frame_ok.mp rest
    exact (heeds.grow_group inside).leave ripe.ordered ripe.binds
  | infixed left right form =>
    rw [continues] at rest
    obtain ⟨powers, forms⟩ := TokenKind.continuation_infixed continues
    dsimp only at rest
    split at rest
    · -- The operator that was seen is the one that is too loose.
      rename_i loose
      obtain ⟨-, rfl⟩ := grow_pure_ok.mp rest
      refine ripe.finish fun outer inner found => ?_
      rw [powers] at found
      cases found
      exact .inr loose
    · rename_i tight
      exact heeds.grow_infixed powers forms (Nat.not_lt.mp tight) ripe rest

omit heeds in
/-- A token that cannot begin an operand is left alone where the statement or the text ends, and is passed over with a mistake elsewhere. -/
theorem grow_missing_ok {mistake : Mistake} {value : Unit}
    (grown : (do
      if ← atStatementEnd then return
      else if ← atEnd then return
      else
        report mistake
        bumpAs .skipped : Parser Unit).grow call limit growth = .ok (value, after)) :
    ∃ symbol first, growth.look limit = .ok (symbol, first)
      ∧ (symbol.kind.endsStatement = true ∧ first = after
        ∨ ∃ again second, first.look limit = .ok (again, second)
          ∧ (again.kind = .endOfText ∧ second = after
            ∨ ∃ read, (second.addMistake mistake).enter.bump = .ok read
              ∧ (second.addMistake mistake).leave (read.close .skipped) = after)) := by
  obtain ⟨ends, first, tested, rest⟩ := grow_bind_ok.mp grown
  obtain ⟨symbol, look, same⟩ := grow_test_ok tested
  refine ⟨symbol, first, look, ?_⟩
  split at rest
  · -- The statement ends there.
    rename_i ended
    obtain ⟨-, rfl⟩ := grow_pure_ok.mp rest
    exact .inl ⟨same.trans ended, rfl⟩
  · obtain ⟨final, second, tested, rest⟩ := grow_bind_ok.mp rest
    obtain ⟨again, relook, same⟩ := grow_test_ok tested
    refine .inr ⟨again, second, relook, ?_⟩
    split at rest
    · -- The text ends there.
      rename_i ended
      obtain ⟨-, rfl⟩ := grow_pure_ok.mp rest
      exact .inl ⟨beq_iff_eq.mp (same.trans ended), rfl⟩
    · -- A mistake is noted, and the token is passed over in a node of its own.
      obtain ⟨_, noted, reported, rest⟩ := grow_bind_ok.mp rest
      cases reported
      obtain ⟨read, bumped, skipped⟩ := grow_nodeOf_ok rest
      exact .inr ⟨read, grow_bump_ok.mp bumped, skipped⟩

omit heeds in
/-- Nothing is added for a token that cannot begin an operand but what is none. -/
theorem adds_missing {mistake : Mistake} {value : Unit}
    (grown : (do
      if ← atStatementEnd then return
      else if ← atEnd then return
      else
        report mistake
        bumpAs .skipped : Parser Unit).grow call limit growth = .ok (value, after)) :
    growth.Adds after Tree.Inert := by
  obtain ⟨symbol, first, look, ⟨-, rfl⟩ | ⟨again, second, relook, further⟩⟩ := grow_missing_ok grown
  · exact adds_look look
  · refine ((adds_look look).trans (adds_look relook)).trans ?_
    rcases further with ⟨-, rfl⟩ | ⟨read, bumped, rfl⟩
    · exact ⟨[], rfl, by simp⟩
    · exact adds_node rfl rfl (adds_bump bumped)

/-- An operand takes in all that is tight enough, and nothing else. -/
theorem Heeds.grow_expression {value : Unit}
    (grown : (Grammar.expression power).grow call limit growth = .ok (value, after)) :
    growth.TakesOperand after power := by
  obtain ⟨symbol, looked, look, rest⟩ := grow_bind_ok.mp grown
  obtain ⟨rfl, next, -⟩ := look_ok look
  dsimp only at rest
  -- What comes next decides on how the operand begins; each node that is made is finished at first.
  cases begins : growth.next.kind.operandStart with
  | atom made =>
    rw [begins] at rest
    obtain ⟨inner, inside, rfl⟩ := grow_frame_ok.mp rest
    obtain ⟨_, between, atom, called⟩ := grow_bind_ok.mp inside
    have ripe := heeds.grow_nodeOf (TokenKind.isInfix_atom begins) (by simp [plainly]) atom power
    exact (heeds.operators (grow_call_ok.mp called) ripe).takesOperand look
      (by simp [TokenKind.startsOperand, begins])
  | group =>
    rw [begins] at rest
    obtain ⟨inner, inside, rfl⟩ := grow_frame_ok.mp rest
    exact (heeds.grow_group inside).takesOperand look (by simp [TokenKind.startsOperand, begins])
  | operator =>
    rw [begins] at rest
    obtain ⟨inner, inside, rfl⟩ := grow_frame_ok.mp rest
    obtain ⟨_, between, prefixed, called⟩ := grow_bind_ok.mp inside
    have ripe := heeds.grow_nodeOf rfl (by simp [plainly, Rule.IsPlain]) prefixed power
    exact (heeds.operators (grow_call_ok.mp called) ripe).takesOperand look
      (by simp [TokenKind.startsOperand, begins])
  -- A semicolon is read as it stands, which is no operand.
  | empty =>
    rw [begins] at rest
    exact ((adds_look look).trans (adds_bump (grow_bump_ok.mp rest))).takesOperand
      (by simp [TokenKind.startsOperand, begins]) power
  | nothing =>
    rw [begins] at rest
    refine ((adds_look look).trans (adds_missing rest)).takesOperand ?_ power
    simp [TokenKind.startsOperand, begins]

/-- The body of every rule heeds the precedence of operators if the rules do that it calls. -/
theorem Heeds.grow_body {rule : Rule} {value : Unit} (isPlain : rule.IsPlain)
    (ordered : growth.Each Tree.Ordered)
    (grown : rule.body.grow call limit growth = .ok (value, after)) : after.Each Tree.Ordered := by
  have obeys := Grammar.obeys_conduct rule
  cases rule with
  | operators operand power => exact isPlain.elim
  | expression power => exact (heeds.grow_expression grown).ordered ordered
  | _ => exact (heeds.grow_plain obeys ordered grown).1

end

/-- Every rule heeds the precedence of operators, however deeply its calls may nest. -/
theorem Rule.heeds_grow (limit : Option Nat) (depth : Nat) :
    Heeds fun rule => rule.grow limit depth := by
  -- Calls nest less deeply than the rule that makes them.
  induction depth with
  | zero =>
    exact ⟨(nomatch ·), (nomatch ·), fun _ _ _ _ => (nomatch ·)⟩
  | succ depth ih =>
    refine ⟨fun grown => ?_, fun grown ripe => ?_, fun rule _ _ isPlain grown ordered => ?_⟩
    · exact ih.grow_expression (Rule.grow_ok.mp grown)
    · exact ih.grow_operators ripe (Rule.grow_ok.mp grown)
    · exact ih.grow_body isPlain ordered (Rule.grow_ok.mp grown)

/-- The tree that tokens grow to is ordered. -/
theorem growWithin_ordered {limit : Option Nat} {tokens : List Token} {parsed : Parsed}
    (grown : growWithin limit tokens = .ok parsed) : parsed.tree.Ordered := by
  obtain ⟨growth, program, -, root⟩ := growWithin_ok grown
  have ordered : growth.Each Tree.Ordered :=
    (Rule.heeds_grow limit _).plain .program trivial program (by simp [Growth.Each, Growth.initial])
  obtain ⟨trivia, siblings, passed⟩ := growth.adds_eatTrivia
  have settled : growth.eatTrivia.Each Tree.Ordered := ordered.adds
    ⟨trivia, siblings, fun tree member => Growth.Each.of_isTrivia .leaf (passed tree member)⟩
  rw [root]
  exact .plain rfl fun child member => settled child (List.mem_reverse.mp member)

end Dxl
