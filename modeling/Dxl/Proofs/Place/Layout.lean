import Dxl.Place.Basic
import Dxl.Proofs.Tree.Leaves

/-! Layout: the tokens below a place lie next to each other, in the order of the leaves. -/

namespace Dxl

/-- Leaves one after the other, each with its range. -/
def laidOut (start : Nat) : List (Kind × String) → List (Kind × String × Nat × Nat)
  | [] => []
  | (kind, text) :: rest =>
    let stop := start + text.utf8ByteSize
    (kind, text, start, stop) :: laidOut stop rest

/-- Further leaves are laid out after the first ones. -/
theorem laidOut_append (start : Nat) (left right : List (Kind × String)) :
    laidOut start (left ++ right)
      = laidOut start left
        ++ laidOut (start + total (left.map fun leaf => leaf.2.utf8ByteSize)) right := by
  induction left generalizing start with
  | nil => rfl
  | cons leaf rest ih => simp [laidOut, ih, Nat.add_assoc]

namespace Place

/-- What an element is and where it lies. -/
def extent (place : Place) : Kind × String × Nat × Nat :=
  (place.kind, place.text, place.start, place.stop)

/-- The elements of a place are the place and those of its children. -/
theorem elements_eq (place : Place) :
    place.elements = place :: place.children.flatMap elements := by
  rw [elements, fold_eq]
  rfl

/-- The tokens in a row of trees are laid out if those in each of the trees are. -/
theorem extents_row {above : List (Tree × Nat)} {trees : List Tree}
    (each : ∀ tree ∈ trees, ∀ start,
      ((elements ⟨tree, start, above⟩).filter isToken).map extent = laidOut start tree.leaves)
    (start : Nat) :
    (((row above start trees).flatMap elements).filter isToken).map extent
      = laidOut start (trees.flatMap Tree.leaves) := by
  induction trees generalizing start with
  | nil => rfl
  | cons tree rest ih =>
    -- The other trees begin where the first one ends.
    rw [row, List.flatMap_cons, List.filter_append, List.map_append, each tree (by simp),
      ih fun other member => each other (by simp [member]), List.flatMap_cons, laidOut_append,
      ← Tree.width_eq_total_leaves]

/-- The tokens of a place are laid out from its start. -/
theorem extents_elements (tree : Tree) (start : Nat) {above : List (Tree × Nat)}
    (inside : above ≠ []) :
    ((elements ⟨tree, start, above⟩).filter isToken).map extent = laidOut start tree.leaves := by
  induction tree generalizing start above with
  | leaf kind text =>
    have token : isToken ⟨.leaf kind text, start, above⟩ = true := by
      simp [isToken, Tree.isLeaf, inside]
    rw [elements_eq, List.filter_cons_of_pos token]
    rfl
  | node kind children ih =>
    rw [elements_eq, List.filter_cons_of_neg (by simp [isToken, Tree.isLeaf]), Tree.leaves_node]
    exact extents_row (fun child member next => ih child member next (by simp)) start

/-- The tokens below the top of a tree are laid out from its start. -/
theorem extents_root (kind : Kind) (children : List Tree) (start : Nat) :
    ((root (.node kind children) start).elements.filter isToken).map extent
      = laidOut start (Tree.node kind children).leaves := by
  rw [elements_eq, List.filter_cons_of_neg (by simp [isToken, Tree.isLeaf, root]),
    Tree.leaves_node]
  exact extents_row (fun child _ next => extents_elements child next (by simp)) start

end Place

end Dxl
