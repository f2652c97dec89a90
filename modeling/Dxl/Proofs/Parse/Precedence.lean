import Dxl.Proofs.Grammar.Precedence
import Dxl.Proofs.Grammar.Simulation
import Dxl.Proofs.Place.Order

/-! Precedence in a source text: how tightly the operators of nested operations bind. -/

namespace Dxl

open Place

/-- What is below an ordered tree is ordered. -/
theorem Place.Within.ordered {inner outer : Place} (within : inner.Within outer)
    (ordered : outer.tree.Ordered) : inner.tree.Ordered := by
  refine within.inherit (fun {tree child} ordered member => ?_) ordered
  cases ordered with
  | leaf kind text => cases member
  | node each _ => exact each child member

/-- In the tree of a source text, the right operand of an operation binds at most one less tightly than its operator, and the left operand binds more than one more tightly unless its own right operand is missing. -/
theorem nests_of_parseText {text : String} {parsed : Parsed} (parses : parseText text = .ok parsed)
    (base : Nat) {place : Place} {kind : NodeKind} (inside : place.Within (root parsed.tree base))
    (isKind : place.kind = .node kind) (isInfix : kind.isInfix = true) :
    ∃ left operator rest precedence, place.tree.infixParts? = some (left, operator, rest)
      ∧ operator.infixNode? = some kind ∧ operator.precedence? = some precedence
      ∧ (∀ inner, left.precedence? = some inner → precedence + 1 < inner ∨ left.lacksRight = true)
      ∧ ∀ right ∈ rest, ∀ inner, right.precedence? = some inner → precedence ≤ inner + 1 := by
  rw [parseText, parse, parseWithin_eq_growWithin] at parses
  -- Growth orders every node by itself, so what is within the root is ordered too.
  have ordered : place.tree.Ordered := inside.ordered (growWithin_ordered parses)
  rw [Place.kind] at isKind
  cases held : place.tree with
  | leaf _ text =>
    rw [held] at ordered isKind
    cases ordered
    cases isKind
  | node _ children =>
    rw [held] at ordered isKind
    cases isKind
    cases ordered with
    | node _ nests => exact nests isInfix

/-- A product takes in the sum after it, which binds one less tightly and no more than that. -/
theorem nests_of_parseText_product :
    ∃ (parsed : Parsed) (place : Place) (left : Tree) (operator : TokenKind) (rest : List Tree)
        (right : Tree), parseText "1 * 2 + 3" = .ok parsed
      ∧ Within place (root parsed.tree 0) ∧ place.kind = .node .binary
      ∧ place.tree.infixParts? = some (left, operator, rest) ∧ right ∈ rest
      ∧ operator.precedence? = some 14 ∧ right.precedence? = some 13 ∧ 14 ≤ 13 + 1 := by
  let check (parsed : Parsed) : Bool := (root parsed.tree 0).children.any fun statement =>
    statement.children.any fun place => place.kind == .node .binary
      && place.tree.infixParts?.any fun parts =>
        parts.2.1.precedence? == some 14 && parts.2.2.any (·.precedence? == some 13)
  have passes : (parseText "1 * 2 + 3").toOption.any check = true := by decide +kernel
  obtain ⟨parsed, parses, passes⟩ := exists_ok_of_any passes
  simp only [check, Option.any_eq_true, List.any_eq_true, Bool.and_eq_true, beq_iff_eq] at passes
  obtain ⟨statement, first, place, second, isBinary, ⟨left, operator, rest⟩, parts, precedence,
    right, member, inner⟩ := passes
  have inside : Within place (root parsed.tree 0) :=
    (Within.of_mem_children second).trans (.of_mem_children first)
  obtain ⟨_, _, _, _, same, -, outer, -, bound⟩ := nests_of_parseText parses 0 inside isBinary rfl
  rw [parts] at same
  cases same
  rw [precedence] at outer
  cases outer
  exact ⟨parsed, place, left, operator, rest, right, parses, inside, isBinary, parts, member,
    precedence, inner, bound right member 13 inner⟩

end Dxl
