import Dxl.Tree.Basic

/-! Measured trees: every element remembers how many bytes it covers. -/

namespace Dxl

/-- A tree whose elements remember their widths, which need not be right. -/
inductive MeasuredTree where
  | leaf (width : Nat) (kind : Kind) (text : String)
  | node (width : Nat) (kind : Kind) (children : List MeasuredTree)

namespace MeasuredTree

/-- The width that the topmost element remembers. -/
def width : MeasuredTree → Nat
  | .leaf width _ _ => width
  | .node width _ _ => width

/-- The kind of the topmost element. -/
def kind : MeasuredTree → Kind
  | .leaf _ kind _ => kind
  | .node _ kind _ => kind

/-- The children of a node; a leaf has none. -/
def children : MeasuredTree → List MeasuredTree
  | .leaf _ _ _ => []
  | .node _ _ children => children

/-- The width that the topmost element should remember: that of its text, or what its children remember together. -/
def actualWidth : MeasuredTree → Nat
  | .leaf _ _ text => text.utf8ByteSize
  | .node _ _ children => total (children.map width)

/-- A leaf that remembers the width of its text. -/
def newLeaf (kind : Kind) (text : String) : MeasuredTree :=
  .leaf text.utf8ByteSize kind text

/-- A node that remembers the width of its children. -/
def newNode (kind : Kind) (children : List MeasuredTree) : MeasuredTree :=
  .node (total (children.map width)) kind children

mutual

/-- The number of nodes and leaves. -/
def size : MeasuredTree → Nat
  | .leaf _ _ _ => 1
  | .node _ _ children => sizeAll children + 1

/-- The number of nodes and leaves of several trees. -/
def sizeAll : List MeasuredTree → Nat
  | [] => 0
  | tree :: rest => size tree + sizeAll rest

end

/-- The sizes of trees come to the size of all of them. -/
theorem sizeAll_eq_total (trees : List MeasuredTree) : sizeAll trees = total (trees.map size) := by
  induction trees with
  | nil => rfl
  | cons tree rest ih => rw [sizeAll, ih, List.map_cons, total_cons]

/-- Behind its children in any order, fewer elements are left than with a tree itself. -/
theorem sizeAll_children_append (tree : MeasuredTree) (rest : List MeasuredTree) :
    sizeAll (tree.children.reverse ++ rest) + 1 = sizeAll (tree :: rest) := by
  cases tree with
  | leaf width kind text => simp [children, sizeAll, size, Nat.add_comm]
  | node width kind trees =>
    simp only [children, sizeAll, size, sizeAll_eq_total, List.map_append, List.map_reverse,
      total_append, total_reverse]
    omega

end MeasuredTree

/-- The tree with the widths of its elements, measured from the leaves upwards. -/
def Tree.measure : Tree → MeasuredTree :=
  fold .newLeaf .newNode

end Dxl
