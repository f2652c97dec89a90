import Dxl.Proofs.Place.Ranges
import Dxl.Proofs.Token.Partition

/-! Tiling: the elements of a tree lie in its range without gaps, each where its text stands. -/

namespace Dxl

namespace Tree

/-- The text of a leaf is what it holds. -/
theorem text_leaf (kind : Kind) (text : String) : (leaf kind text).text = text := by
  rw [Tree.text, leaves_leaf, List.map_cons, List.map_nil, String.join_cons, String.join_nil]
  exact String.append_empty

/-- The text of a node is that of its children, one after the other. -/
theorem text_node (kind : Kind) (children : List Tree) :
    (node kind children).text = String.join (children.map text) := by
  rw [text, leaves_node]
  induction children with
  | nil => rfl
  | cons child rest ih =>
    rw [List.flatMap_cons, List.map_append, String.join_append, ih, List.map_cons,
      String.join_cons]
    rfl

end Tree

/-- The leaves that are laid out are the leaves themselves. -/
theorem map_laidOut (start : Nat) (leaves : List (Kind × String)) :
    (laidOut start leaves).map (fun extent => (extent.1, extent.2.1)) = leaves := by
  induction leaves generalizing start with
  | nil => rfl
  | cons leaf rest ih => rw [laidOut, List.map_cons, ih]

namespace Place

/-- Places follow each other without gaps from one offset to another. -/
def Tiled (start stop : Nat) : List Place → Prop
  | [] => start = stop
  | place :: rest => place.start = start ∧ Tiled place.stop stop rest

variable {place inner outer : Place}

/-- Neighbouring trees follow each other without gaps. -/
theorem tiled_row (above : List (Tree × Nat)) (start : Nat) (trees : List Tree) :
    Tiled start (start + total (trees.map Tree.width)) (row above start trees) := by
  induction trees generalizing start with
  | nil => rfl
  | cons tree rest ih =>
    -- The others begin where the first one ends.
    refine ⟨rfl, ?_⟩
    rw [List.map_cons, total_cons, ← Nat.add_assoc]
    exact ih (start + tree.width)

/-- The children of a node fill its range without gaps. -/
theorem tiled_children (composite : place.tree.isLeaf = false) :
    Tiled place.start place.stop place.children := by
  obtain ⟨tree, start, above⟩ := place
  cases tree with
  | leaf kind text => cases composite
  | node kind children =>
    rw [stop, Tree.width_node]
    exact tiled_row _ start children

/-- Something below another place is a token just if it is a leaf. -/
theorem Below.isToken_eq (below : Below inner outer) : inner.isToken = inner.tree.isLeaf := by
  cases below with
  | child member | deeper member _ => simp [isToken, above_of_mem_row member]

/-- A token has the text of its tree. -/
theorem text_of_isToken (isToken : place.isToken = true) : place.text = place.tree.text := by
  obtain ⟨tree, start, above⟩ := place
  cases tree with
  | leaf kind text => exact (Tree.text_leaf kind text).symm
  | node kind children => cases isToken

/-- The text of a tree in a row stands in the text of the row as far from its start as the place is. -/
theorem exists_text_of_mem_row {above : List (Tree × Nat)} {start : Nat} {trees : List Tree}
    (member : place ∈ row above start trees) :
    ∃ before after, String.join (trees.map Tree.text) = before ++ (place.tree.text ++ after)
      ∧ place.start = start + before.utf8ByteSize := by
  induction trees generalizing start with
  | nil => cases member
  | cons tree rest ih =>
    rw [List.map_cons, String.join_cons]
    rcases List.mem_cons.mp member with rfl | further
    · exact ⟨"", String.join (rest.map Tree.text), String.empty_append.symm, rfl⟩
    · -- The text of the first tree comes before the others.
      obtain ⟨before, after, joined, begins⟩ := ih further
      refine ⟨tree.text ++ before, after, by rw [joined, String.append_assoc], ?_⟩
      rw [begins, String.utf8ByteSize_append, ← Tree.width_eq_utf8ByteSize, Nat.add_assoc]

/-- The text of a place stands in that of any place around it as far from its start as the place is. -/
theorem Within.exists_text (within : inner.Within outer) :
    ∃ before after, outer.tree.text = before ++ (inner.tree.text ++ after)
      ∧ inner.start = outer.start + before.utf8ByteSize := by
  have step {child place : Place} (member : child ∈ place.children) :
      ∃ before after, place.tree.text = before ++ (child.tree.text ++ after)
        ∧ child.start = place.start + before.utf8ByteSize := by
    obtain ⟨tree, start, above⟩ := place
    cases tree with
    | leaf kind text => cases member
    | node kind children =>
      rw [Tree.text_node]
      exact exists_text_of_mem_row member
  rcases within with rfl | below
  · exact ⟨"", "", by simp, rfl⟩
  · induction below with
    | child member => exact step member
    | @deeper inner middle outer member _ ih =>
      -- What comes before the inner place comes after what comes before the middle one.
      obtain ⟨outside, beyond, whole, begins⟩ := ih
      obtain ⟨before, after, part, starts⟩ := step member
      refine ⟨outside ++ before, after ++ beyond, ?_, ?_⟩
      · rw [whole, part]
        simp only [String.append_assoc]
      · rw [starts, begins, String.utf8ByteSize_append, Nat.add_assoc]

/-- The elements of a tree tile its text. Each lies in the range of the tree, which begins at the base; the children of a node follow each other without gaps from its start to its stop; the text of the tree between the offsets of an element, counted from the base, is that of the element; and the tokens are the leaves of the tree, in order. -/
theorem root_tiles (kind : Kind) (children : List Tree) (base : Nat) :
    let tree := Tree.node kind children
    (∀ place ∈ (root tree base).elements,
      base ≤ place.start ∧ place.start ≤ place.stop ∧ place.stop ≤ base + tree.width
        ∧ (place.isToken = false → Tiled place.start place.stop place.children)
        ∧ (place.isToken = true → place.text = place.tree.text)
        ∧ ∃ (opens : (String.Pos.Raw.mk (place.start - base)).IsValid tree.text)
            (closes : (String.Pos.Raw.mk (place.stop - base)).IsValid tree.text),
            tree.text.extract ⟨⟨place.start - base⟩, opens⟩ ⟨⟨place.stop - base⟩, closes⟩
              = place.tree.text)
      ∧ ((root tree base).elements.filter isToken).map (fun leaf => (leaf.kind, leaf.text))
        = tree.leaves := by
  intro tree
  constructor
  · intro place member
    have within := mem_elements_iff.mp member
    have range := within.range
    refine ⟨range.1, place.start_le_stop, range.2, ?_, text_of_isToken, ?_⟩
    · intro isNode
      apply tiled_children
      rcases within with rfl | below
      · rfl
      · rw [← below.isToken_eq]
        exact isNode
    · obtain ⟨before, after, split, begins⟩ := within.exists_text
      have begins : place.start = base + before.utf8ByteSize := begins
      apply exists_extract split
      · rw [begins, Nat.add_sub_cancel_left]
      · rw [stop, begins, Tree.width_eq_utf8ByteSize, Nat.add_assoc, Nat.add_sub_cancel_left]
  · have laid := extents_root kind children base
    rw [← map_laidOut base tree.leaves, ← laid, List.map_map]
    rfl

/-- After an empty token and beside an empty node, a node still starts and stops where its text does, counted from the base. -/
theorem root_tiles_empty :
    let tree : Tree := .node (.node .root) [.leaf (.token .name) "é", .leaf (.token .comment) "",
      .node (.node .exprStmt) [.node (.node .argList) [], .leaf (.token .integer) "12"]]
    ∃ place ∈ (root tree 5).elements,
      place.isToken = false ∧ place.start = 7 ∧ place.stop = 9 ∧ Tiled 7 9 place.children
        ∧ ∃ opens closes, tree.text.extract ⟨⟨2⟩, opens⟩ ⟨⟨4⟩, closes⟩ = place.tree.text := by
  intro tree
  have member := List.mem_of_getElem? (l := (root tree 5).elements) (i := 3) rfl
  obtain ⟨-, -, -, tiled, -, slice⟩ := (root_tiles _ _ 5).1 _ member
  exact ⟨_, member, rfl, rfl, rfl, tiled rfl, slice⟩

end Place

end Dxl
