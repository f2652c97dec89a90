import Dxl.Grammar.Operator
import Dxl.Proofs.Tree.Shape

/-! Operators in trees: how tightly the operators of nested nodes of two operands bind. -/

namespace Dxl

/-- Nodes that a binary operator makes of its two operands. -/
def NodeKind.isInfix : NodeKind → Bool
  | .assignment | .binary | .comparison | .equality | .logical | .shift => true
  | _ => false

/-- The precedence of a binary operator. -/
def TokenKind.precedence? (kind : TokenKind) : Option Nat :=
  kind.infixPower?.map Prod.fst

namespace Tree

/-- Whether a tree is a node that can be an operand. -/
def isOperand (tree : Tree) : Bool :=
  tree.nodeKind?.any NodeKind.isOperand

/-- The left operand, the operator and all that follows it in a node of two operands. -/
def infixParts? : Tree → Option (Tree × TokenKind × List Tree)
  | .node (.node kind) (left :: others) =>
    if kind.isInfix then
      match others.dropWhile isTrivia with
      | .leaf (.token operator) _ :: rest => some (left, operator, rest)
      | _ => none
    else none
  | _ => none

/-- The precedence of the operator in a node of two operands. -/
def precedence? (tree : Tree) : Option Nat :=
  tree.infixParts?.bind fun (_, operator, _) => operator.precedence?

/-- Whether the right operand is missing in a node of two operands. -/
def lacksRight (tree : Tree) : Bool :=
  tree.infixParts?.any fun (_, _, rest) => !rest.any isOperand

/-- A node of two operands is made by its operator, its right operand binds at most one less tightly than the operator, and its left operand binds more than one more tightly unless it lacks a right operand of its own. -/
def Nests (tree : Tree) : Prop :=
  ∃ left operator rest precedence, tree.infixParts? = some (left, operator, rest)
    ∧ operator.infixNode? = tree.nodeKind? ∧ operator.precedence? = some precedence
    ∧ (∀ inner, left.precedence? = some inner → precedence + 1 < inner ∨ left.lacksRight = true)
    ∧ ∀ right ∈ rest, ∀ inner, right.precedence? = some inner → precedence ≤ inner + 1

/-- A tree in which all nodes of two operands nest as they should. -/
inductive Ordered : Tree → Prop
  | leaf (kind : TokenKind) (text : String) : Ordered (.leaf (.token kind) text)
  | node {kind : NodeKind} {children : List Tree} : (∀ child ∈ children, Ordered child) →
    (kind.isInfix = true → Nests (.node (.node kind) children)) → Ordered (.node (.node kind) children)

/-- A leaf has no operands. -/
@[simp] theorem precedence?_leaf (kind : Kind) (text : String) :
    (leaf kind text).precedence? = none := rfl

/-- Trivia has no operands. -/
theorem precedence?_of_isTrivia {tree : Tree} (trivia : tree.isTrivia = true) :
    tree.precedence? = none := by
  -- Only a leaf is trivia.
  cases tree with
  | leaf kind text => rfl
  | node kind children => cases trivia

/-- A node that no binary operator makes has no precedence. -/
theorem precedence?_of_not_isInfix {kind : NodeKind} (plain : kind.isInfix = false)
    (children : List Tree) : (node (.node kind) children).precedence? = none := by
  cases children <;> simp [precedence?, infixParts?, plain]

/-- A node that no binary operator makes is ordered if its children are. -/
theorem Ordered.plain {kind : NodeKind} (plain : kind.isInfix = false) {children : List Tree}
    (ordered : ∀ child ∈ children, child.Ordered) : (Tree.node (.node kind) children).Ordered :=
  .node ordered (by simp [plain])

/-- The parts of a node of two operands are told apart by its first token. -/
theorem infixParts?_node {kind : NodeKind} (isInfix : kind.isInfix = true) {left : Tree}
    {trivia rest : List Tree} {operator : TokenKind} {text : String}
    (passed : ∀ tree ∈ trivia, tree.isTrivia = true) (proper : operator.isTrivia = false) :
    (node (.node kind) (left :: (trivia ++ .leaf (.token operator) text :: rest))).infixParts?
      = some (left, operator, rest) := by
  have stops : (Tree.leaf (.token operator) text).isTrivia = false := proper
  have dropped : (trivia ++ .leaf (.token operator) text :: rest).dropWhile isTrivia
      = .leaf (.token operator) text :: rest := by
    rw [List.dropWhile_append_of_pos passed, List.dropWhile_cons_of_neg (by simp [stops])]
  simp [infixParts?, isInfix, dropped]

end Tree

namespace TokenKind

/-- A binary operator takes a right operand that binds one less tightly than itself. -/
theorem infixPower?_spec {kind : TokenKind} {left right : Nat}
    (powers : kind.infixPower? = some (left, right)) : left = right + 1 ∧ 2 ≤ left := by
  unfold infixPower? at powers
  split at powers <;> first | cases powers; simp | cases powers

/-- The node that a binary operator makes is one of two operands. -/
theorem isInfix_of_infixNode? {kind : TokenKind} {made : NodeKind}
    (makes : kind.infixNode? = some made) : made.isInfix = true := by
  unfold infixNode? at makes
  split at makes <;> first | cases makes; rfl | cases makes

end TokenKind

end Dxl
