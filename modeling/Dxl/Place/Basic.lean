import Dxl.Tree.Basic

/-! Places: elements of a tree together with their offset and everything above them. -/

namespace Dxl

/-- An element of a tree, the offset where it starts, and the nodes above it, nearest first, each with its start. -/
structure Place where
  tree : Tree
  start : Nat
  above : List (Tree × Nat)

namespace Place

/-- The topmost place of a tree which starts at the given offset. -/
def root (tree : Tree) (start : Nat) : Place :=
  ⟨tree, start, []⟩

/-- The kind of the element. -/
def kind (place : Place) : Kind :=
  place.tree.kind

/-- The offset right after the element. -/
def stop (place : Place) : Nat :=
  place.start + place.tree.width

/-- A token is a leaf inside of a tree; what stands at the top counts as a node. -/
def isToken (place : Place) : Bool :=
  place.tree.isLeaf && !place.above.isEmpty

/-- The text of a leaf; nodes have none of their own. -/
def text (place : Place) : String :=
  place.tree.text?.getD ""

/-- The places of neighbouring trees, of which the first starts at the given offset. -/
def row (above : List (Tree × Nat)) (start : Nat) : List Tree → List Place
  | [] => []
  | tree :: rest => ⟨tree, start, above⟩ :: row above (start + tree.width) rest

/-- The places right below, from left to right. -/
def children (place : Place) : List Place :=
  row ((place.tree, place.start) :: place.above) place.start place.tree.children

/-- The nodes right below. -/
def nodes (place : Place) : List Place :=
  place.children.filter (fun child => !child.isToken)

/-- The tokens right below. -/
def tokens (place : Place) : List Place :=
  place.children.filter isToken

/-- The places of nodes that lie above each other, nearest first. -/
def chain : List (Tree × Nat) → List Place
  | [] => []
  | (tree, start) :: above => ⟨tree, start, above⟩ :: chain above

/-- Every node above, nearest first. -/
def ancestors (place : Place) : List Place :=
  chain place.above

/-- The node right above. -/
def parent? (place : Place) : Option Place :=
  place.ancestors.head?

/-- The nodes next to the path to the top that start earlier: those below the nearest ancestor come first, and within one ancestor the last. -/
def previous (place : Place) : List Place :=
  place.ancestors.flatMap fun ancestor =>
    (ancestor.nodes.filter (fun node => node.start < place.start)).reverse

/-- Whether an offset lies within the element, both ends included. -/
def covers (place : Place) (offset : Nat) : Bool :=
  place.start ≤ offset && offset ≤ place.stop

mutual

/-- Combines all places of one tree from its leaves upwards. -/
def foldAt {α : Type} (combine : Place → List α → α) (above : List (Tree × Nat)) (start : Nat) :
    Tree → α
  | .leaf kind text => combine ⟨.leaf kind text, start, above⟩ []
  | .node kind children =>
    combine ⟨.node kind children, start, above⟩
      (foldRow combine ((.node kind children, start) :: above) start children)

/-- Combines all places of neighbouring trees, each from its leaves upwards. -/
def foldRow {α : Type} (combine : Place → List α → α) (above : List (Tree × Nat)) (start : Nat) :
    List Tree → List α
  | [] => []
  | tree :: rest =>
    foldAt combine above start tree :: foldRow combine above (start + tree.width) rest

end

/-- Combines a place with the results of its children. -/
def fold {α : Type} (combine : Place → List α → α) (place : Place) : α :=
  foldAt combine place.above place.start place.tree

/-- Combining a row is combining each of its places. -/
theorem foldRow_eq_map {α : Type} (combine : Place → List α → α) (above : List (Tree × Nat))
    (start : Nat) (trees : List Tree) :
    foldRow combine above start trees = (row above start trees).map (fold combine) := by
  -- Both sides move on by the width of the first tree.
  induction trees generalizing start with
  | nil => rfl
  | cons tree rest ih => simp [foldRow, row, fold, ih]

/-- A place is combined from the combined places right below it. -/
theorem fold_eq {α : Type} (combine : Place → List α → α) (place : Place) :
    place.fold combine = combine place (place.children.map (fold combine)) := by
  -- A leaf has no children, and those of a node form a row.
  obtain ⟨tree, start, above⟩ := place
  cases tree with
  | leaf kind text => rfl
  | node kind children =>
    simp only [fold, foldAt, foldRow_eq_map]
    rfl

/-- The place itself and everything below it, each element before what lies below it. -/
def elements (place : Place) : List Place :=
  place.fold fun element below => element :: below.flatten

/-- A row has one place for each tree. -/
theorem tree_of_mem_row {above : List (Tree × Nat)} {start : Nat} {trees : List Tree}
    {place : Place} (member : place ∈ row above start trees) : place.tree ∈ trees := by
  -- The place is the first of the row or lies further on.
  induction trees generalizing start with
  | nil => simp [row] at member
  | cons tree rest ih =>
    rcases List.mem_cons.mp member with same | further
    · simp [same]
    · exact List.mem_cons_of_mem _ (ih further)

/-- What is right below a place is smaller. -/
theorem size_lt_of_mem_children {child place : Place} (member : child ∈ place.children) :
    child.tree.size < place.tree.size := by
  exact Tree.size_lt_of_mem_children (tree_of_mem_row member)

end Place

end Dxl
