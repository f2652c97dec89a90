import Dxl.Proofs.Tree.Leaves
import Dxl.View.Basic

/-! Order: what lies below a place lies in its range, and places that do not lie below each other follow each other. -/

namespace Dxl.Place

/-- A place itself or one below it. -/
def Within (inner outer : Place) : Prop :=
  inner = outer ∨ Below inner outer

variable {inner middle outer top left right place child : Place}

namespace Within

/-- A place is within itself. -/
theorem refl (place : Place) : place.Within place :=
  .inl rfl

/-- What is right below a place is within it. -/
theorem of_mem_children (member : inner ∈ outer.children) : inner.Within outer :=
  .inr (.child member)

/-- What lies below something within a place lies below the place. -/
theorem below (first : Below inner middle) (second : middle.Within outer) : Below inner outer := by
  rcases second with rfl | further
  · exact first
  · exact first.trans further

/-- Something within a place below another is below that one. -/
theorem trans_below (first : inner.Within middle) (second : Below middle outer) :
    Below inner outer := by
  rcases first with rfl | further
  · exact second
  · exact further.trans second

/-- Being within is passed on. -/
theorem trans (first : inner.Within middle) (second : middle.Within outer) :
    inner.Within outer := by
  rcases second with rfl | further
  · exact first
  · exact .inr (first.trans_below further)

end Within

/-- What lies below a place is within one of its children. -/
theorem Below.exists_child (below : Below inner outer) :
    ∃ child ∈ outer.children, inner.Within child := by
  induction below with
  | child member => exact ⟨_, member, .refl _⟩
  | deeper member _ ih =>
    obtain ⟨child, inside, within⟩ := ih
    exact ⟨child, inside, (Within.of_mem_children member).trans within⟩

/-- No place lies below itself. -/
theorem not_below_self (place : Place) : ¬ Below place place := fun below =>
  Nat.lt_irrefl _ below.size_lt

/-- Places that are within each other are the same. -/
theorem Within.antisymm (one : left.Within right) (other : right.Within left) : left = right := by
  rcases one with same | below
  · exact same
  · exact absurd (Within.trans_below other below) (not_below_self right)

/-- What holds of a place if it holds of its children holds of every place. -/
@[elab_as_elim]
theorem induct {motive : Place → Prop}
    (step : ∀ place, (∀ child ∈ place.children, motive child) → motive place) (place : Place) :
    motive place :=
  step place fun child _ => induct step child
termination_by place.tree.size
decreasing_by
  exact size_lt_of_mem_children ‹_›

/-- A place in a row knows the nodes above the row. -/
theorem above_of_mem_row {above : List (Tree × Nat)} {start : Nat} {trees : List Tree}
    (member : place ∈ row above start trees) : place.above = above := by
  induction trees generalizing start with
  | nil => simp [row] at member
  | cons tree rest ih =>
    rcases List.mem_cons.mp member with rfl | further
    · rfl
    · exact ih further

/-- What lies right below a place, and is no leaf, is a node right below it. -/
theorem mem_nodes_iff : child ∈ place.nodes ↔ child ∈ place.children ∧ child.tree.isLeaf = false := by
  rw [nodes, List.mem_filter]
  refine and_congr_right fun member => ?_
  simp [isToken, above_of_mem_row member]

/-- What the children of every tree inherit from it, a place inherits from those it is within. -/
theorem Within.inherit {property : Tree → Prop}
    (inherited : ∀ {tree child : Tree}, property tree → child ∈ tree.children → property child)
    (within : inner.Within outer) (holds : property outer.tree) : property inner.tree := by
  rcases within with rfl | below
  · exact holds
  · induction below with
    | child member => exact inherited holds (tree_of_mem_row member)
    | deeper member _ ih => exact inherited (ih holds) (tree_of_mem_row member)

/-- What is around something that is no leaf is no leaf. -/
theorem Within.isLeaf (within : inner.Within outer) (composite : inner.tree.isLeaf = false) :
    outer.tree.isLeaf = false := by
  rcases within with rfl | below
  · exact composite
  · obtain ⟨child, member, -⟩ := below.exists_child
    obtain ⟨_ | _, start, above⟩ := outer
    · simp [children, Tree.children, row] at member
    · rfl

/-- Something below a place that is no leaf is within a node right below the place. -/
theorem Below.exists_node (below : Below inner outer) (composite : inner.tree.isLeaf = false) :
    ∃ path ∈ outer.nodes, inner.Within path := by
  obtain ⟨child, member, within⟩ := below.exists_child
  exact ⟨child, mem_nodes_iff.mpr ⟨member, within.isLeaf composite⟩, within⟩

/-- A token is a leaf. -/
theorem isLeaf_of_isToken (isToken : place.isToken = true) : place.tree.isLeaf = true :=
  (Bool.and_eq_true_iff.mp isToken).1

/-- What is within a leaf is the leaf. -/
theorem Within.eq_of_isLeaf (within : inner.Within outer) (isLeaf : outer.tree.isLeaf = true) :
    inner = outer := by
  rcases within with same | below
  · exact same
  · obtain ⟨child, member, -⟩ := below.exists_child
    obtain ⟨_ | _, start, above⟩ := outer
    · simp [children, Tree.children, row] at member
    · cases isLeaf

/-- Right above a child is the place itself. -/
theorem ancestors_of_mem_children (member : child ∈ place.children) :
    child.ancestors = place :: place.ancestors := by
  rw [ancestors, above_of_mem_row member]
  rfl

/-- A place is right below one place only. -/
theorem eq_of_mem_children (one : child ∈ left.children) (other : child ∈ right.children) :
    left = right := by
  have same := (ancestors_of_mem_children one).symm.trans (ancestors_of_mem_children other)
  exact (List.cons.inj same).1

/-- What is around a child of a place is around the place or is it. -/
theorem Below.within_of_mem_children (below : Below child outer)
    (member : child ∈ place.children) : place.Within outer := by
  cases below with
  | child same => exact .inl (eq_of_mem_children member same)
  | deeper same further => exact .inr (eq_of_mem_children member same ▸ further)

/-- The nodes above a place are those in between and those from a given one upwards. -/
theorem Below.ancestors_eq (below : Below inner outer) :
    ∃ between, inner.ancestors = between ++ outer :: outer.ancestors := by
  induction below with
  | child member => exact ⟨[], ancestors_of_mem_children member⟩
  | @deeper inner middle outer member _ ih =>
    obtain ⟨between, same⟩ := ih
    exact ⟨middle :: between, by rw [ancestors_of_mem_children member, same, List.cons_append]⟩

/-- Inside of a tree, the ancestors of a place are what it lies below. -/
theorem mem_ancestors_iff (topmost : top.above = []) (within : inner.Within top) :
    outer ∈ inner.ancestors ↔ Below inner outer := by
  constructor
  · intro member
    rcases within with rfl | below
    · simp [ancestors, topmost, chain] at member
    · -- Along the path down, each step adds the place that is left to the ancestors.
      induction below with
      | child inside =>
        rw [ancestors_of_mem_children inside, Place.ancestors, topmost] at member
        rw [List.mem_singleton.mp member]
        exact .child inside
      | deeper inside _ ih =>
        rw [ancestors_of_mem_children inside] at member
        rcases List.mem_cons.mp member with rfl | further
        · exact .child inside
        · exact .deeper inside (ih topmost further)
  · intro below
    obtain ⟨between, same⟩ := below.ancestors_eq
    simp [same]

/-- Of two places around another, one is around the other or is it. -/
theorem Below.within_or_below (one : Below inner left) (other : Below inner right) :
    left.Within right ∨ Below right left := by
  induction one with
  | child member => exact .inl (other.within_of_mem_children member)
  | deeper member below ih =>
    rcases other.within_of_mem_children member with rfl | further
    · exact .inr below
    · exact ih further

/-- Places in a row follow each other. -/
theorem row_pairwise (above : List (Tree × Nat)) (start : Nat) (trees : List Tree) :
    (row above start trees).Pairwise (fun left right => left.stop ≤ right.start)
      ∧ ∀ place ∈ row above start trees, start ≤ place.start
        ∧ place.stop ≤ start + total (trees.map Tree.width) := by
  induction trees generalizing start with
  | nil => simp [row]
  | cons tree rest ih =>
    obtain ⟨ordered, bounded⟩ := ih (start + tree.width)
    refine ⟨.cons (fun place member => (bounded place member).1) ordered, fun place member => ?_⟩
    rw [List.map_cons, total_cons]
    rcases List.mem_cons.mp member with rfl | further
    · exact ⟨Nat.le_refl _, by simp only [stop]; omega⟩
    · have := bounded place further
      omega

/-- The children of a place follow each other. -/
theorem children_pairwise (place : Place) :
    place.children.Pairwise (fun left right => left.stop ≤ right.start) :=
  (row_pairwise _ _ _).1

/-- The nodes right below a place follow each other. -/
theorem nodes_pairwise (place : Place) :
    place.nodes.Pairwise (fun left right => left.stop ≤ right.start) :=
  place.children_pairwise.filter _

/-- What is right below a place lies in its range. -/
theorem range_of_mem_children (member : child ∈ place.children) :
    place.start ≤ child.start ∧ child.stop ≤ place.stop := by
  obtain ⟨tree, start, above⟩ := place
  cases tree with
  | leaf kind text => simp [children, Tree.children, row] at member
  | node kind trees =>
    have bounded := (row_pairwise _ _ _).2 child member
    rwa [Tree.children, ← Tree.width_node kind] at bounded

/-- What is within a place lies in its range. -/
theorem Within.range (within : inner.Within outer) :
    outer.start ≤ inner.start ∧ inner.stop ≤ outer.stop := by
  rcases within with rfl | below
  · exact ⟨Nat.le_refl _, Nat.le_refl _⟩
  · induction below with
    | child member => exact range_of_mem_children member
    | deeper member _ ih =>
      have := range_of_mem_children member
      omega

/-- A place does not end before it starts. -/
theorem start_le_stop (place : Place) : place.start ≤ place.stop :=
  Nat.le_add_right _ _

/-- Of two members of an ordered list, one comes first unless they are the same. -/
theorem eq_or_of_pairwise {places : List Place} {relation : Place → Place → Prop}
    (ordered : places.Pairwise relation) (one : left ∈ places) (other : right ∈ places) :
    left = right ∨ relation left right ∨ relation right left := by
  induction ordered with
  | nil => simp at one
  | cons first _ ih =>
    -- Whichever comes first is ordered before the rest; if neither does, both are in it.
    rcases List.mem_cons.mp one with rfl | oneLater <;>
      rcases List.mem_cons.mp other with rfl | otherLater
    · exact .inl rfl
    · exact .inr (.inl (first _ otherLater))
    · exact .inr (.inr (first _ oneLater))
    · exact ih oneLater otherLater

/-- Of two places right below another, one ends before the other starts unless they are the same. -/
theorem eq_or_le_of_mem_children (one : left ∈ place.children) (other : right ∈ place.children) :
    left = right ∨ left.stop ≤ right.start ∨ right.stop ≤ left.start :=
  eq_or_of_pairwise place.children_pairwise one other

/-- Something is within one child of a place only. -/
theorem eq_of_within_children (one : left ∈ place.children) (other : right ∈ place.children)
    (inLeft : inner.Within left) (inRight : inner.Within right) : left = right := by
  -- One child would be around the other, and so around the place itself.
  have nested {child sibling : Place} (isChild : child ∈ place.children)
      (isSibling : sibling ∈ place.children) (within : child.Within sibling) : child = sibling := by
    rcases within with same | below
    · exact same
    · exact absurd (Within.below (.child isSibling) (below.within_of_mem_children isChild))
        (not_below_self sibling)
  rcases inLeft with rfl | inLeft
  · exact nested one other inRight
  · rcases inRight with rfl | inRight
    · exact (nested other one (.inr inLeft)).symm
    · rcases inLeft.within_or_below inRight with within | below
      · exact nested one other within
      · exact (nested other one (.inr below)).symm

/-- Two places are apart if one ends before the other starts; else they are nested if one is within the other. -/
def ApartOrNested (left right : Place) : Prop :=
  left.stop ≤ right.start ∨ right.stop ≤ left.start ∨ left.Within right ∨ right.Within left

/-- What is right below a place is apart from others or nested with them as the place is. -/
theorem ApartOrNested.of_mem_children (member : left ∈ middle.children)
    (outer : middle.ApartOrNested right) : left.ApartOrNested right := by
  have bounded := range_of_mem_children member
  rcases outer with before | after | inside | rfl | below
  · exact .inl (by omega)
  · exact .inr (.inl (by omega))
  · exact .inr (.inr (.inl ((Within.of_mem_children member).trans inside)))
  · exact .inr (.inr (.inl (.of_mem_children member)))
  · -- The other place is below a neighbour, or below the same child.
    obtain ⟨child, neighbour, within⟩ := below.exists_child
    have range := within.range
    rcases eq_or_le_of_mem_children member neighbour with rfl | before | after
    · exact .inr (.inr (.inr within))
    · exact .inl (by omega)
    · exact .inr (.inl (by omega))

/-- Inside of a tree, any two places are apart or nested. -/
theorem apartOrNested (one : left.Within top) (other : right.Within top) :
    left.ApartOrNested right := by
  rcases one with rfl | below
  · exact .inr (.inr (.inr other))
  · induction below with
    | child member => exact .of_mem_children member (.inr (.inr (.inr other)))
    | deeper member _ ih => exact .of_mem_children member (ih other)

/-- Of two leaves of a tree, one ends before the other starts unless they are the same. -/
theorem eq_or_le_of_isLeaf (one : left.Within top) (other : right.Within top)
    (isLeft : left.tree.isLeaf = true) (isRight : right.tree.isLeaf = true) :
    left = right ∨ left.stop ≤ right.start ∨ right.stop ≤ left.start := by
  rcases apartOrNested one other with before | after | inside | around
  · exact .inr (.inl before)
  · exact .inr (.inr after)
  · exact .inl (inside.eq_of_isLeaf isRight)
  · exact .inl (around.eq_of_isLeaf isLeft).symm

end Dxl.Place
