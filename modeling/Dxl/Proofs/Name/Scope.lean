import Dxl.Name.Reference
import Dxl.Proofs.Place.Previous
import Dxl.Proofs.Place.Proper

/-! Scopes: how the nesting of places goes with what they lie below, and what is around the scope of a name. -/

namespace Dxl.Place

/-- The top of a proper tree, which stands for a whole source text. -/
structure Rooted (top : Place) : Prop where
  topmost : top.above = []
  isRoot : top.kind = .node .root
  proper : top.Proper

/-- How deeply something right below a place is nested. -/
def innerLevel (place : Place) : Nat :=
  (place :: place.ancestors).countP fun ancestor => ancestor.kind.isNodeWith NodeKind.isLevel

variable {place child inner outer top node reference : Place} {kind : NodeKind}

/-- What is right below a place is nested as deeply as its insides. -/
theorem level_of_mem_children (member : child ∈ place.children) :
    child.level = place.innerLevel := by
  rw [level, ancestors_of_mem_children member, innerLevel]

/-- A node right below a place is nested as deeply as the insides of the place. -/
theorem level_of_mem_nodes (member : node ∈ place.nodes) : node.level = place.innerLevel :=
  level_of_mem_children (List.mem_filter.mp member).1

/-- The insides of a node are nested more deeply than the node just if it is a level. -/
theorem innerLevel_eq (isNode : place.kind = .node kind) :
    place.innerLevel = if kind.isLevel then place.level + 1 else place.level := by
  rw [innerLevel, List.countP_cons, isNode, level]
  cases found : kind.isLevel <;> simp [Kind.isNodeWith, found]

/-- What lies below a place is nested at least as deeply as what is right below it. -/
theorem Below.innerLevel_le (below : Below inner outer) : outer.innerLevel ≤ inner.level := by
  obtain ⟨between, same⟩ := below.ancestors_eq
  rw [level, same, List.countP_append, innerLevel]
  exact Nat.le_add_left _ _

/-- The node right above a place is around all that lies below the place, or else the place is the topmost one. -/
theorem below_parent? (topmost : top.above = []) (inside : outer.Within top)
    (below : Below inner outer) : Below inner (outer.parent?.getD outer) := by
  rcases inside with rfl | further
  · rw [parent?, ancestors, topmost]
    exact below
  · cases further with
    | child member | deeper member _ =>
      rw [parent?, ancestors_of_mem_children member]
      exact below.trans (.child member)

/-- What lies below the scope of a name lies below the node in which its uses are searched. -/
theorem below_searched (rooted : top.Rooted) (inside : reference.scope.Within top)
    (below : Below inner reference.scope) : Below inner reference.searched := by
  rw [searched]
  split
  · exact below_parent? rooted.topmost inside below
  · exact below

/-- The scope of a place below the root is the nearest of its ancestors that is a scope. -/
theorem ancestors_eq_scope (rooted : top.Rooted) (below : Below place top) :
    ∃ between outer, place.ancestors = between ++ place.scope :: outer
      ∧ place.scope.kind.isNodeWith NodeKind.isScope = true
      ∧ ∀ ancestor ∈ between, ancestor.kind.isNodeWith NodeKind.isScope = false := by
  rw [scope]
  cases found : place.ancestors.find? fun ancestor => ancestor.kind.isNodeWith NodeKind.isScope with
  | some ancestor =>
    obtain ⟨isScope, between, outer, split, others⟩ := List.find?_eq_some_iff_append.mp found
    exact ⟨between, outer, split, isScope, fun other member => by simpa using others other member⟩
  | none =>
    -- The root is a scope.
    have missing := List.find?_eq_none.mp found top
      ((mem_ancestors_iff rooted.topmost (.inr below)).mpr below)
    rw [rooted.isRoot] at missing
    exact absurd rfl missing

/-- What is right below a scope has it as its scope. -/
theorem scope_of_isScope (member : child ∈ place.children) (isNode : place.kind = .node kind)
    (isScope : kind.isScope = true) : child.scope = place := by
  rw [scope, ancestors_of_mem_children member, List.find?_cons_of_pos (by
    rwa [isNode, Kind.isNodeWith])]
  rfl

/-- What is right below a node that is no scope has the scope of the node. -/
theorem scope_of_not_isScope (rooted : top.Rooted) (inside : Below place top)
    (member : child ∈ place.children) (isNode : place.kind = .node kind)
    (plain : kind.isScope = false) : child.scope = place.scope := by
  obtain ⟨between, outer, split, isScope, others⟩ := ancestors_eq_scope rooted inside
  rw [scope, ancestors_of_mem_children member, List.find?_cons_of_neg (by
    simp [isNode, Kind.isNodeWith, plain]), split, List.find?_append,
    List.find?_eq_none.mpr fun ancestor inBetween => by simp [others ancestor inBetween],
    Option.none_or, List.find?_cons, isScope]
  rfl

/-- A place below the root lies below its scope. -/
theorem below_scope (rooted : top.Rooted) (below : Below place top) :
    Below place place.scope := by
  obtain ⟨between, outer, split, -, -⟩ := ancestors_eq_scope rooted below
  exact (mem_ancestors_iff rooted.topmost (.inr below)).mp (by simp [split])

/-- Nothing is above the top of a tree. -/
theorem not_below_top (topmost : top.above = []) : ¬ Below top outer := by
  intro below
  have member := (mem_ancestors_iff topmost (.refl top)).mpr below
  simp [ancestors, topmost, chain] at member

/-- What is around a place below the top of a tree is within the tree. -/
theorem within_of_below (topmost : top.above = []) (inside : Below inner top)
    (below : Below inner outer) : outer.Within top := by
  rcases below.within_or_below inside with within | above
  · exact within
  · exact absurd above (not_below_top topmost)

/-- There is only one root in a tree. -/
theorem eq_top_of_isRoot (rooted : top.Rooted) (within : place.Within top)
    (isRoot : place.kind = .node .root) : place = top := by
  have composite : place.tree.isLeaf = false := by
    obtain ⟨children, same⟩ := (rooted.proper.of_within within).exists_children isRoot
    rw [same]
    rfl
  -- No node may hold a root.
  have inside : ∀ outer : Place, outer.Within top → place ∉ outer.children := by
    intro outer within member
    obtain ⟨outerKind, innerKind, -, isInner, holds⟩ :=
      (rooted.proper.of_within within).exists_kinds (mem_nodes_iff.mpr ⟨member, composite⟩)
    rw [isRoot] at isInner
    cases isInner
    cases outerKind <;> cases holds
  rcases within with same | (member | ⟨member, below⟩)
  · exact same
  · exact absurd member (inside _ (.refl _))
  · exact absurd member (inside _ (.inr below))

/-- What has the root as its scope is nested in one level. -/
theorem level_of_scope_root (rooted : top.Rooted) (inside : Below place top)
    (isRoot : place.scope.isA .root = true) : place.level = 1 := by
  have isTop : place.scope = top := eq_top_of_isRoot rooted
    (within_of_below rooted.topmost inside (below_scope rooted inside)) (by simpa [isA] using isRoot)
  obtain ⟨between, outer, split, -, others⟩ := ancestors_eq_scope rooted inside
  have ordered := ancestors_pairwise rooted.topmost (.inr inside)
  rw [isTop] at split
  rw [split] at ordered
  -- Nothing is around the top, so the scope is the last of the ancestors.
  have nothing : outer = [] := by
    refine List.eq_nil_iff_forall_not_mem.mpr fun ancestor member => ?_
    exact not_below_top rooted.topmost
      (List.rel_of_pairwise_cons (List.pairwise_append.mp ordered).2.1 member)
  -- What opens a level is a scope, and no scope is nearer than the root.
  have passed : between.countP (fun ancestor => ancestor.kind.isNodeWith NodeKind.isLevel) = 0 := by
    rw [List.countP_eq_zero]
    intro ancestor member isLevel
    have := others ancestor member
    cases found : ancestor.kind <;> simp_all [Kind.isNodeWith, NodeKind.isScope]
  rw [level, split, nothing, List.countP_append, passed, List.countP_singleton, rooted.isRoot]
  rfl

end Dxl.Place
