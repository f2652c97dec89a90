import Mathlib
import Dxl.Tree.Basic

/-! Leaves: what the text and the width of a tree have to do with its leaves, and which trees are without flaws. -/

namespace Dxl.Tree

/-- What holds of leaves, and of a node if it holds of its children, holds of every tree. -/
@[elab_as_elim, induction_eliminator]
theorem induct {motive : Tree → Prop} (leaf : ∀ kind text, motive (.leaf kind text))
    (node : ∀ kind children, (∀ child ∈ children, motive child) → motive (.node kind children))
    (tree : Tree) : motive tree := by
  -- Children are smaller than their node.
  match tree with
  | .leaf kind text => exact leaf kind text
  | .node kind children => exact node kind children fun child _ => induct leaf node child
termination_by tree

/-- A leaf has itself as its only leaf. -/
@[simp] theorem leaves_leaf (kind : Kind) (text : String) :
    (leaf kind text).leaves = [(kind, text)] := rfl

/-- The leaves of a node are those of its children. -/
@[simp] theorem leaves_node (kind : Kind) (children : List Tree) :
    (node kind children).leaves = children.flatMap leaves := by
  simp only [leaves, fold_node, List.flatMap]

/-- A leaf is as wide as its text. -/
@[simp] theorem width_leaf (kind : Kind) (text : String) :
    (leaf kind text).width = text.utf8ByteSize := rfl

/-- A node is as wide as its children together. -/
@[simp] theorem width_node (kind : Kind) (children : List Tree) :
    (node kind children).width = total (children.map width) := by
  simp only [width, fold_node]

/-- A tree is as wide as its leaves together. -/
theorem width_eq_total_leaves (tree : Tree) :
    tree.width = total (tree.leaves.map fun leaf => leaf.2.utf8ByteSize) := by
  induction tree with
  | leaf kind text => simp
  | node kind children ih =>
    rw [width_node, leaves_node]
    induction children with
    | nil => rfl
    | cons child rest ihRest =>
      rw [List.map_cons, total_cons, List.flatMap_cons, List.map_append, total_append,
        ih child (by simp), ihRest fun other member => ih other (by simp [member])]

/-- Texts that are joined are as long as all of them together. -/
theorem utf8ByteSize_join (texts : List String) :
    (String.join texts).utf8ByteSize = total (texts.map String.utf8ByteSize) := by
  induction texts with
  | nil => rfl
  | cons text rest ih => rw [String.join_cons, String.utf8ByteSize_append, ih]; rfl

/-- A tree is as wide as its text. -/
theorem width_eq_utf8ByteSize (tree : Tree) : tree.width = tree.text.utf8ByteSize := by
  rw [width_eq_total_leaves, text, utf8ByteSize_join, List.map_map]
  rfl

/-- A tree whose nodes have the kinds of nodes, and whose leaves have the kinds of tokens and are not empty. -/
inductive Flawless : Tree → Prop
  | leaf {kind : TokenKind} {text : String} : text ≠ "" → Flawless (.leaf (.token kind) text)
  | node {kind : NodeKind} {children : List Tree} :
    (∀ child ∈ children, Flawless child) → Flawless (.node (.node kind) children)

end Dxl.Tree
