import Dxl.Proofs.Form.Atom
import Dxl.Proofs.Form.Operator
import Dxl.Proofs.Parse.Forms
import Dxl.Proofs.Parse.Names

/-! Views: the nodes of a source text have the parts that their views rely on. -/

namespace Dxl

open Place

/-- A node of an operator after its operand is made around the operand. -/
theorem NodeKind.isSurrounding_of_followsOperand {kind : NodeKind}
    (follows : kind.followsOperand = true) : kind.isSurrounding = true := by
  cases kind <;> first | rfl | cases follows

/-- In the tree of a source text, a node of a single token has a token that can make it as its only child; the view of a node of an operator finds the operator, the operand before it where the node starts, and any other behind it. -/
theorem viewed_of_parseText {text : String} {parsed : Parsed} (parses : parseText text = .ok parsed)
    (base : Nat) {place : Place} (inside : place.Within (root parsed.tree base)) {kind : NodeKind}
    (isNode : place.kind = .node kind) :
    (kind.isAtom = true →
      ∃ token tokenKind, place.children = [token] ∧ token.isToken = true
        ∧ token.kind = .token tokenKind ∧ tokenKind.isTrivia = false
        ∧ kind.IsMadeOf tokenKind token.text)
    ∧ (kind.followsOperand = true →
      ∃ operator left, place.operator? = some operator ∧ place.expression? 0 = some left
        ∧ left.start = place.start ∧ left.stop ≤ operator.start
        ∧ ∀ right, place.expression? 1 = some right → operator.stop ≤ right.start)
    ∧ (kind = .prefixed →
      ∃ operator, place.operator? = some operator
        ∧ ∀ operand, place.expression? 0 = some operand → operator.stop ≤ operand.start) := by
  have proper := (rooted_of_parseText parses base).proper.of_within inside
  have formed := formed_of_within (formed_of_parseText parses) inside
  obtain ⟨start, children, -, tree, made⟩ := madeUp_of_parseText parses base inside isNode
  refine ⟨fun atom => ?_, fun follows => ?_, ?_⟩
  · refine proper.token_of_isAtom (inside.trimmed (trimmed_of_parseText parses)) formed isNode atom
      fun isType => ?_
    rw [tree, Tree.leaves_node]
    exact made.type isType
  · obtain ⟨operator, left, others, found, first, split, before, behind⟩ :=
      operator_of_followsOperand proper formed isNode follows
    -- The operand is the first child, with no trivia before it.
    obtain ⟨operand, rest, rfl, composite⟩ :=
      made.operand (NodeKind.isSurrounding_of_followsOperand follows)
    exact ⟨operator, left, found, first, start_of_significant formed tree composite split, before,
      behind 0⟩
  · rintro rfl
    obtain ⟨operator, found, behind⟩ := operator_of_prefixed proper formed isNode
    exact ⟨operator, found, behind 0⟩

/-- The name that is assigned to starts with the assignment, and the operator stands between it and the value. -/
theorem viewed_of_parseText_assignment :
    ∃ (parsed : Parsed) (place operator left right : Place), parseText " a = -1" = .ok parsed
      ∧ place.Within (root parsed.tree 0) ∧ place.kind = .node .assignment
      ∧ place.operator? = some operator ∧ place.expression? 0 = some left
      ∧ place.expression? 1 = some right ∧ left.start = place.start ∧ left.stop ≤ operator.start
      ∧ operator.stop ≤ right.start := by
  obtain ⟨parsed, parses, passes⟩ : ∃ parsed, parseText " a = -1" = .ok parsed
      ∧ ((root parsed.tree 0).children.any fun statement => statement.children.any fun place =>
        place.kind == .node .assignment && (place.expression? 1).isSome) = true :=
    exists_ok_of_any (by decide +kernel)
  simp only [List.any_eq_true, Bool.and_eq_true, beq_iff_eq, Option.isSome_iff_exists] at passes
  obtain ⟨statement, outer, place, member, isNode, right, value⟩ := passes
  have inside : place.Within (root parsed.tree 0) :=
    (Within.of_mem_children member).trans (.of_mem_children outer)
  obtain ⟨-, follows, -⟩ := viewed_of_parseText parses 0 inside isNode
  obtain ⟨operator, left, found, first, starts, before, behind⟩ := follows rfl
  exact ⟨parsed, place, operator, left, right, parses, inside, isNode, found, first, value, starts,
    before, behind right value⟩

end Dxl
