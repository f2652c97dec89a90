import Dxl.Proofs.Form.Clause
import Dxl.Proofs.Grammar.Operator

/-! Operators: where the operator of a node stands, which its view looks for, and where the operands stand before and after it. -/

namespace Dxl

/-- The binary operator that makes a node is one of those that the view of the node looks for. -/
theorem TokenKind.mem_operatorTokens_of_infixNode? {token : TokenKind} {kind : NodeKind}
    (made : token.infixNode? = some kind) : token ∈ kind.operatorTokens := by
  unfold infixNode? at made
  split at made <;> cases made <;> decide

/-- An operator before an operand is one of those that the view of the node looks for. -/
theorem TokenKind.mem_operatorTokens_of_operator {token : TokenKind}
    (starts : token.operandStart = .operator) : token ∈ NodeKind.prefixed.operatorTokens := by
  have isPrefix := isPrefixOperator_of_operator starts
  unfold isPrefixOperator at isPrefix
  split at isPrefix <;> first | decide | cases isPrefix

/-- A token that completes an operand is one of the operators that the view of the node looks for. -/
theorem TokenKind.mem_operatorTokens_of_step {token : TokenKind} {operand : NodeKind}
    (continues : token.continuation operand = .step) :
    token ∈ NodeKind.postfixed.operatorTokens := by
  rcases eq_of_step continues with rfl | rfl <;> decide

/-- Operators carry meaning. -/
theorem NodeKind.isTrivia_of_mem_operatorTokens {kind : NodeKind} :
    ∀ token ∈ kind.operatorTokens, token.isTrivia = false := by
  have all : (kind.operatorTokens.all fun token => !token.isTrivia) = true := by
    cases kind <;> rfl
  simpa using all

/-- The nodes of an operator after its operand. -/
def NodeKind.followsOperand : NodeKind → Bool
  | .arrow | .assignment | .binary | .comparison | .equality | .logical | .shift | .postfixed => true
  | _ => false

namespace Form

variable {clean : Prop} {kind : NodeKind} {constituents : List Constituent}

/-- In a node of an operator after its operand, the operator comes right after the operand. -/
theorem operator_of_forms (follows : kind.followsOperand = true)
    (forms : kind.Forms clean constituents) :
    ∃ operand first operator rest, operand.isOperand = true ∧ operator ∈ kind.operatorTokens
      ∧ constituents = .node operand first :: .token operator :: rest := by
  cases kind with
  | arrow =>
    -- The two arrows are listed in the form of the node.
    obtain ⟨first, operand, same, -⟩ := forms
    refine ⟨_, first, _, _, operand, ?_, rfl⟩
    rcases same with rfl | rfl <;> decide
  | assignment | binary | comparison | equality | logical | shift =>
    -- The form names the operator by the kind of node that it makes.
    obtain ⟨first, operand, made, -⟩ := forms
    exact ⟨_, first, _, _, operand, TokenKind.mem_operatorTokens_of_infixNode? made, rfl⟩
  | postfixed =>
    obtain ⟨operand, first, operator, _, isOperand, continues, rfl⟩ := forms
    exact ⟨operand, first, operator, [], isOperand,
      TokenKind.mem_operatorTokens_of_step continues, rfl⟩
  | _ => cases follows

end Form

namespace Place

open Form

variable {place operator : Place} {clean : Prop} {kind : NodeKind} {tokenKind : TokenKind}

/-- The view of a node finds the operator of the node, which is the first token that carries meaning. -/
theorem operator?_of_split (formed : place.tree.Formed clean) (isNode : place.kind = .node kind)
    {before after : List Place} (split : place.significant = before ++ operator :: after)
    (isToken : operator.kind = .token tokenKind) (among : tokenKind ∈ kind.operatorTokens)
    (nodes : ∀ child ∈ before, ∃ inner, child.kind = .node inner) :
    place.operator? = some operator := by
  rw [operator?, isNode]
  refine tokenOf?_of_mem formed NodeKind.isTrivia_of_mem_operatorTokens split isToken among ?_
  intro child member other _ same
  obtain ⟨inner, isInner⟩ := nodes child member
  cases same.symm.trans isInner

/-- The view of a node of an operator after its operand finds the operator, the operand right before it, and what else it finds behind it. -/
theorem operator_of_followsOperand (proper : place.Proper) (formed : place.tree.Formed clean)
    (isNode : place.kind = .node kind) (follows : kind.followsOperand = true) :
    ∃ operator left others, place.operator? = some operator ∧ place.expression? 0 = some left
      ∧ place.significant = left :: others ∧ left.stop ≤ operator.start
      ∧ ∀ n right, place.expression? (n + 1) = some right → operator.stop ≤ right.start := by
  have matched := forall₂_significant formed
  obtain ⟨operand, first, tokenKind, rest, isOperand, among, same⟩ :=
    operator_of_forms follows (forms_of_kind formed isNode)
  rw [same] at matched
  obtain ⟨left, others, isLeft, matched, split⟩ := List.forall₂_cons_right_iff.mp matched
  obtain ⟨operator, behind, isOperator, -, rfl⟩ := List.forall₂_cons_right_iff.mp matched
  have parts : place.significant = [left] ++ operator :: behind := split
  -- The operator parts what is before it from what is after it.
  obtain ⟨before, after⟩ := apart_of_split proper parts isOperator.1
  -- Of the expressions below the node, the one before the operator comes first.
  have expressions : place.expressions = left :: behind.filter isExpression := by
    have isNoExpression : ¬ operator.isExpression = true := by
      simp [isExpression, isOperator.1, Kind.isNodeWith]
    rw [expressions_eq_significant formed, split,
      List.filter_cons_of_pos (isExpression_of_operand isLeft.1 isOperand),
      List.filter_cons_of_neg isNoExpression]
  refine ⟨operator, left, operator :: behind, ?_, ?_, split, (before left (by simp)).1, ?_⟩
  · exact operator?_of_split formed isNode parts isOperator.1 among
      (List.forall_mem_singleton.mpr ⟨operand, isLeft.1⟩)
  · rw [expression?, expressions]
    rfl
  · -- Every later expression is among what comes after the operator.
    intro n right found
    rw [expression?, expressions, List.getElem?_cons_succ] at found
    exact (after right (List.mem_filter.mp (List.mem_of_getElem? found)).1).1

/-- The view of an operator before its operand finds the operator, and the operand behind it if there is one. -/
theorem operator_of_prefixed (proper : place.Proper) (formed : place.tree.Formed clean)
    (isNode : place.kind = .node .prefixed) :
    ∃ operator, place.operator? = some operator
      ∧ ∀ n operand, place.expression? n = some operand → operator.stop ≤ operand.start := by
  have matched := forall₂_significant formed
  obtain ⟨tokenKind, rest, starts, -, same⟩ := forms_of_kind formed isNode
  rw [same] at matched
  obtain ⟨operator, behind, isOperator, -, split⟩ := List.forall₂_cons_right_iff.mp matched
  have parts : place.significant = [] ++ operator :: behind := split
  refine ⟨operator, ?_, fun n operand found => ?_⟩
  · exact operator?_of_split formed isNode parts isOperator.1
      (TokenKind.mem_operatorTokens_of_operator starts) (List.forall_mem_nil _)
  · have member := List.mem_of_getElem? found
    rw [expressions_eq_significant formed, split] at member
    obtain ⟨inside, isExpression⟩ := List.mem_filter.mp member
    -- The operator itself is no expression, and all else comes after it.
    rcases List.mem_cons.mp inside with rfl | later
    · simp [Place.isExpression, isOperator.1, Kind.isNodeWith] at isExpression
    · exact ((apart_of_split proper parts isOperator.1).2 operand later).1

/-- A node that begins with a node has that as the first child that carries meaning, and starts with it. -/
theorem start_of_significant {operand : Tree} {rest : List Tree} {left : Place} {others : List Place}
    (formed : place.tree.Formed clean) (tree : place.tree = .node (.node kind) (operand :: rest))
    (composite : operand.isLeaf = false) (split : place.significant = left :: others) :
    left.start = place.start := by
  -- The children begin where the node begins, with the operand.
  have below : place.children = ⟨operand, place.start, (place.tree, place.start) :: place.above⟩
      :: row ((place.tree, place.start) :: place.above) (place.start + operand.width) rest := by
    rw [children, tree]
    rfl
  have formedOperand : operand.Formed clean :=
    formed_of_mem_children formed (below ▸ List.mem_cons_self)
  rw [significant, below] at split
  cases formedOperand with
  | leaf => cases composite
  | node =>
    -- A node is no trivia, so it is kept.
    rw [List.filter_cons_of_pos (by rfl)] at split
    rw [← (List.cons.inj split).1]

end Place

end Dxl
