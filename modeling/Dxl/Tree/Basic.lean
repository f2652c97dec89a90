import Dxl.Kind.Basic

/-! Lossless trees: every character of a source text is in exactly one leaf. -/

namespace Dxl

/-- A leaf holds the text of a token, and a node holds its children from left to right. -/
inductive Tree where
  | leaf (kind : Kind) (text : String)
  | node (kind : Kind) (children : List Tree)

/-- What numbers come to together. -/
def total (numbers : List Nat) : Nat :=
  numbers.foldr (· + ·) 0

/-- No numbers come to nothing. -/
@[simp] theorem total_nil : total [] = 0 := rfl

/-- The first number is added to the others. -/
@[simp] theorem total_cons (first : Nat) (rest : List Nat) :
    total (first :: rest) = first + total rest := rfl

/-- Numbers come to the same in two portions. -/
@[simp] theorem total_append (left right : List Nat) :
    total (left ++ right) = total left + total right := by
  induction left with
  | nil => simp
  | cons first rest ih => simp [ih, Nat.add_assoc]

/-- Numbers come to the same in any direction. -/
@[simp] theorem total_reverse (numbers : List Nat) : total numbers.reverse = total numbers := by
  induction numbers with
  | nil => rfl
  | cons first rest ih => simp [ih, Nat.add_comm]

/-- No number exceeds all of them together. -/
theorem le_total_of_mem {numbers : List Nat} {number : Nat} (member : number ∈ numbers) :
    number ≤ total numbers := by
  -- The number is the first one or one of the others.
  induction numbers with
  | nil => simp at member
  | cons first rest ih =>
    rw [total_cons]
    rcases List.mem_cons.mp member with same | further
    · omega
    · have := ih further
      omega

namespace Tree

mutual

/-- Combines a tree from its leaves upwards. -/
def fold {α : Type} (onLeaf : Kind → String → α) (onNode : Kind → List α → α) : Tree → α
  | .leaf kind text => onLeaf kind text
  | .node kind children => onNode kind (foldAll onLeaf onNode children)

/-- Combines each of several trees. -/
def foldAll {α : Type} (onLeaf : Kind → String → α) (onNode : Kind → List α → α) :
    List Tree → List α
  | [] => []
  | tree :: rest => fold onLeaf onNode tree :: foldAll onLeaf onNode rest

end

/-- Combining several trees is combining each of them. -/
theorem foldAll_eq_map {α : Type} (onLeaf : Kind → String → α) (onNode : Kind → List α → α)
    (trees : List Tree) : foldAll onLeaf onNode trees = trees.map (fold onLeaf onNode) := by
  -- Both sides treat the first tree alike and go on with the rest.
  induction trees with
  | nil => rfl
  | cons tree rest ih => simp [foldAll, ih]

/-- A node is combined from its combined children. -/
theorem fold_node {α : Type} (onLeaf : Kind → String → α) (onNode : Kind → List α → α)
    (kind : Kind) (children : List Tree) :
    fold onLeaf onNode (.node kind children)
      = onNode kind (children.map (fold onLeaf onNode)) := by
  rw [fold, foldAll_eq_map]

/-- The kind of the topmost element. -/
def kind : Tree → Kind
  | .leaf kind _ => kind
  | .node kind _ => kind

/-- Whether the tree is a single leaf. -/
def isLeaf : Tree → Bool
  | .leaf _ _ => true
  | .node _ _ => false

/-- The children of a node; a leaf has none. -/
def children : Tree → List Tree
  | .leaf _ _ => []
  | .node _ children => children

/-- The text of a leaf; a node has none of its own. -/
def text? : Tree → Option String
  | .leaf _ text => some text
  | .node _ _ => none

/-- The number of bytes a tree covers. -/
def width : Tree → Nat :=
  fold (fun _ text => text.utf8ByteSize) (fun _ widths => total widths)

/-- The leaves from left to right. -/
def leaves : Tree → List (Kind × String) :=
  fold (fun kind text => [(kind, text)]) (fun _ leaves => leaves.flatten)

/-- The text a tree covers, joined from its leaves. -/
def text (tree : Tree) : String :=
  String.join (tree.leaves.map Prod.snd)

/-- The number of nodes and leaves. -/
def size : Tree → Nat :=
  fold (fun _ _ => 1) (fun _ sizes => total sizes + 1)

/-- A node is one larger than its children together. -/
theorem size_node (kind : Kind) (children : List Tree) :
    (node kind children).size = total (children.map size) + 1 := by
  simp only [size, fold_node]

/-- What is right below the top of a tree is smaller than the tree. -/
theorem size_lt_of_mem_children {child tree : Tree} (member : child ∈ tree.children) :
    child.size < tree.size := by
  -- Only a node has children, and its size counts each of them.
  cases tree with
  | leaf kind text => simp [children] at member
  | node kind trees =>
    have bound : child.size ≤ total (trees.map size) := le_total_of_mem (List.mem_map_of_mem member)
    rw [size_node]
    omega

/-- The largest number of nodes on a path from the top. -/
def depth : Tree → Nat :=
  fold (fun _ _ => 0) (fun _ depths => depths.foldl max 0 + 1)

end Tree

end Dxl
