import Dxl.Proofs.Place.Layout
import Dxl.Proofs.Place.Order

/-! Ranges: where the nodes of one kind begin and end in a tree, each node before those below it. -/

namespace Dxl

/-- The elements of a place are all that is within it. -/
theorem Place.mem_elements_iff {inner outer : Place} :
    inner ∈ outer.elements ↔ inner.Within outer := by
  -- An element is the place itself or one of those of a child.
  induction outer using Place.induct with
  | step outer ih =>
    rw [elements_eq, List.mem_cons, List.mem_flatMap]
    constructor
    · rintro (rfl | ⟨child, member, inside⟩)
      · exact .refl inner
      · exact ((ih child member).mp inside).trans (.of_mem_children member)
    · rintro (rfl | below)
      · exact .inl rfl
      · obtain ⟨child, member, within⟩ := below.exists_child
        exact .inr ⟨child, member, (ih child member).mpr within⟩

mutual

/-- Every element of a tree that starts at the given offset, with its own start, before what lies below it. -/
def spots (start : Nat) : Tree → List (Tree × Nat)
  | .leaf kind text => [(.leaf kind text, start)]
  | .node kind children => (.node kind children, start) :: spotsOfRow start children

/-- Every element of neighbouring trees, of which the first starts at the given offset. -/
def spotsOfRow (start : Nat) : List Tree → List (Tree × Nat)
  | [] => []
  | tree :: rest => spots start tree ++ spotsOfRow (start + tree.width) rest

end

/-- The elements of two rows of trees are those of the first row and those of the second one after it. -/
theorem spotsOfRow_append (start : Nat) (left right : List Tree) :
    spotsOfRow start (left ++ right)
      = spotsOfRow start left ++ spotsOfRow (start + total (left.map Tree.width)) right := by
  induction left generalizing start with
  | nil => rfl
  | cons tree rest ih =>
    rw [List.cons_append, spotsOfRow, spotsOfRow, ih, List.map_cons, total_cons, Nat.add_assoc,
      List.append_assoc]

/-- Further on in a text, a tree has the same elements, each as much further on. -/
theorem spots_add (base : Nat) (tree : Tree) (start : Nat) :
    spots (base + start) tree = (spots start tree).map (Prod.map id (base + ·)) := by
  induction tree generalizing start with
  | leaf kind text => rfl
  | node kind children ih =>
    have row : ∀ next, spotsOfRow (base + next) children
        = (spotsOfRow next children).map (Prod.map id (base + ·)) := by
      -- The induction is on the trees of the row, which is shifted as a whole.
      induction children with
      | nil => exact fun _ => rfl
      | cons child rest others =>
        intro next
        rw [spotsOfRow, spotsOfRow, List.map_append, ih child (by simp), Nat.add_assoc,
          others fun other member => ih other (by simp [member])]
    rw [spots, spots, row, List.map_cons]
    rfl

/-- The element of a spot and its start are those of a place. -/
def Place.spot (place : Place) : Tree × Nat :=
  (place.tree, place.start)

/-- The elements of a row are those of its trees, if the elements of each tree are. -/
theorem Place.spots_row {above : List (Tree × Nat)} {trees : List Tree}
    (each : ∀ tree ∈ trees, ∀ start, (elements ⟨tree, start, above⟩).map spot = spots start tree)
    (start : Nat) :
    ((row above start trees).flatMap elements).map spot = spotsOfRow start trees := by
  induction trees generalizing start with
  | nil => rfl
  | cons tree rest ih =>
    rw [row, List.flatMap_cons, List.map_append, each tree (by simp),
      ih fun other member => each other (by simp [member]), spotsOfRow]

/-- The elements of a place lie where those of its tree do, whatever is above it. -/
theorem Place.spots_elements (tree : Tree) (start : Nat) (above : List (Tree × Nat)) :
    (elements ⟨tree, start, above⟩).map spot = spots start tree := by
  induction tree generalizing start above with
  | leaf kind text =>
    rw [elements_eq]
    rfl
  | node kind children ih =>
    rw [elements_eq, List.map_cons, spots]
    exact congrArg _ (spots_row (fun child member next => ih child member next _) start)

/-- What is within a tree is one of its elements, wherever the tree starts. -/
theorem Place.Within.exists_spot {place : Place} {tree : Tree} {base : Nat}
    (within : place.Within (root tree base)) :
    ∃ start, place.start = base + start ∧ (place.tree, start) ∈ spots 0 tree := by
  have member : place.spot ∈ spots (base + 0) tree := by
    rw [Nat.add_zero, ← Place.spots_elements tree base []]
    exact List.mem_map_of_mem (Place.mem_elements_iff.mpr within)
  rw [spots_add] at member
  obtain ⟨⟨inner, start⟩, among, same⟩ := List.mem_map.mp member
  simp only [Prod.map, id, Place.spot, Prod.mk.injEq] at same
  obtain ⟨rfl, begins⟩ := same
  exact ⟨start, begins.symm, among⟩

/-- The range of a spot, if it is that of a node of the given kind. -/
def rangeOf? (kind : NodeKind) (spot : Tree × Nat) : Option (Nat × Nat) :=
  if spot.1.kind = .node kind then some (spot.2, spot.2 + spot.1.width) else none

/-- Where the nodes of one kind begin and end among neighbouring trees, of which the first starts at the given offset. -/
def ranges (kind : NodeKind) (start : Nat) (trees : List Tree) : List (Nat × Nat) :=
  (spotsOfRow start trees).filterMap (rangeOf? kind)

variable {kind : NodeKind} {start : Nat}

/-- There are no nodes where there are no trees. -/
@[simp] theorem ranges_nil : ranges kind start [] = [] := rfl

/-- Nodes among two rows of trees are those of the first row and those of the second one after it. -/
theorem ranges_append (left right : List Tree) :
    ranges kind start (left ++ right)
      = ranges kind start left ++ ranges kind (start + total (left.map Tree.width)) right := by
  rw [ranges, spotsOfRow_append, List.filterMap_append]
  rfl

/-- A token is no node. -/
@[simp] theorem ranges_leaf (tokenKind : TokenKind) (text : String) :
    ranges kind start [.leaf (.token tokenKind) text] = [] := rfl

/-- A node comes before those below it. -/
theorem ranges_node (made : NodeKind) (children : List Tree) :
    ranges kind start [.node (.node made) children]
      = (if made = kind then [(start, start + total (children.map Tree.width))] else [])
        ++ ranges kind start children := by
  by_cases same : made = kind <;>
    simp [ranges, spotsOfRow, spots, rangeOf?, Tree.kind, same]

/-- The ranges of nodes are those of their places. -/
theorem ranges_eq_elements (kind : NodeKind) (tree : Tree) (start : Nat) :
    ranges kind start [tree]
      = ((Place.root tree start).elements.filter (Place.isA kind)).map fun place =>
          (place.start, place.stop) := by
  rw [ranges, spotsOfRow, spotsOfRow, List.append_nil, ← Place.spots_elements tree start [],
    List.filterMap_map, ← List.filterMap_eq_map, List.filterMap_filter]
  refine List.filterMap_congr fun place _ => ?_
  by_cases isKind : place.tree.kind = .node kind <;>
    simp [rangeOf?, Place.spot, Place.isA, Place.kind, Place.stop, isKind]

end Dxl
