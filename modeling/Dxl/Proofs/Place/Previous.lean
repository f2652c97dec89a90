import Dxl.Proofs.Place.Order

/-! Earlier nodes: those beside the path from the top to a place, up to the path itself. -/

namespace Dxl.Place

/-- Of two nodes right below a place, one comes no later than the other, which something is within. -/
structure Leads (outer node path inner : Place) : Prop where
  member : node ∈ outer.nodes
  onPath : path ∈ outer.nodes
  within : inner.Within path
  first : node = path ∨ node.stop ≤ path.start

variable {outer node path inner other top place : Place}

/-- What lies below a place and is no leaf is a node right below some place. -/
theorem Below.exists_parent (below : Below inner outer) (composite : inner.tree.isLeaf = false) :
    ∃ parent : Place, inner ∈ parent.nodes := by
  cases below with
  | child member | deeper member _ => exact ⟨_, mem_nodes_iff.mpr ⟨member, composite⟩⟩

namespace Leads

/-- A node leads to what is within it. -/
theorem refl (member : node ∈ outer.nodes) (within : inner.Within node) :
    Leads outer node node inner :=
  ⟨member, member, within, .inl rfl⟩

/-- What leads to a place leads to all that is within the place. -/
theorem of_within (leads : Leads outer node path inner) (within : other.Within inner) :
    Leads outer node path other :=
  ⟨leads.member, leads.onPath, within.trans leads.within, leads.first⟩

/-- A node leads only to what lies below the place it is right below of. -/
theorem below (leads : Leads outer node path inner) : Below inner outer :=
  leads.within.trans_below (below_of_mem_nodes leads.onPath)

/-- A node that leads to a place does not start after it. -/
theorem start_le (leads : Leads outer node path inner) : node.start ≤ inner.start := by
  have range := leads.within.range
  have bound := node.start_le_stop
  rcases leads.first with rfl | before <;> omega

end Leads

/-- The nodes right below what is around a place either lead to it or start after it ends. -/
theorem leads_or_le (below : Below inner outer) (composite : inner.tree.isLeaf = false)
    (member : node ∈ outer.nodes) :
    (∃ path, Leads outer node path inner) ∨ inner.stop ≤ node.start := by
  obtain ⟨path, beside, within⟩ := below.exists_node composite
  have range := within.range
  rcases eq_or_of_pairwise outer.nodes_pairwise member beside with same | before | after
  · exact .inl ⟨path, member, beside, within, .inl same⟩
  · exact .inl ⟨path, member, beside, within, .inr before⟩
  · exact .inr (by omega)

/-- Inside of a tree, the earlier nodes are those that lead to a place and start before it. -/
theorem mem_previous_iff (topmost : top.above = []) (inside : inner.Within top)
    (composite : inner.tree.isLeaf = false) :
    node ∈ inner.previous ↔ node.start < inner.start ∧ ∃ outer path, Leads outer node path inner := by
  simp only [previous, List.mem_flatMap, mem_ancestors_iff topmost inside, List.mem_reverse,
    List.mem_filter, decide_eq_true_eq]
  constructor
  · rintro ⟨outer, below, member, earlier⟩
    refine ⟨earlier, outer, ?_⟩
    -- A node right below an ancestor leads to the place or follows it, and what follows does not
    -- start before it.
    rcases leads_or_le below composite member with leads | after
    · exact leads
    · have := inner.start_le_stop
      omega
  · rintro ⟨earlier, outer, path, leads⟩
    exact ⟨outer, leads.below, leads.member, earlier⟩

/-- Inside of a tree, each ancestor lies below the next ones. -/
theorem ancestors_pairwise (topmost : top.above = []) (inside : inner.Within top) :
    inner.ancestors.Pairwise Below := by
  rcases inside with rfl | below
  · simp [ancestors, topmost, chain]
  · induction below with
    | child member =>
      rw [ancestors_of_mem_children member, ancestors, topmost]
      simp [chain]
    | deeper member below ih =>
      rw [ancestors_of_mem_children member]
      exact .cons (fun outer above => (mem_ancestors_iff topmost (.inr below)).mp above)
        (ih topmost)

/-- Inside of a tree, each earlier node is led to by those that come after it. -/
theorem previous_pairwise (topmost : top.above = []) (inside : inner.Within top)
    (composite : inner.tree.isLeaf = false) :
    inner.previous.Pairwise fun near far => ∃ outer path, Leads outer far path near := by
  rw [previous, List.pairwise_flatMap]
  constructor
  · -- Below one ancestor, the last nodes come first.
    intro outer above
    rw [List.pairwise_reverse]
    refine List.Pairwise.filter _ (outer.nodes_pairwise.imp_of_mem ?_)
    intro far near farMember nearMember before
    exact ⟨outer, near, farMember, nearMember, .refl near, .inr before⟩
  · -- A nearer ancestor is within a node right below a farther one.
    refine (ancestors_pairwise topmost inside).imp_of_mem ?_
    intro nearer outer above _ below near nearMember far farMember
    rw [List.mem_reverse, List.mem_filter, decide_eq_true_eq] at nearMember farMember
    have around := (mem_ancestors_iff topmost inside).mp above
    have range := Within.range (.inr around)
    refine ⟨outer, ?_⟩
    rcases leads_or_le below (Within.isLeaf (.inr around) composite) farMember.1 with
      ⟨path, leads⟩ | after
    · exact ⟨path, leads.of_within (.of_mem_children (List.mem_filter.mp nearMember.1).1)⟩
    · have := inner.start_le_stop
      omega

/-- Inside of a tree, the first of the earlier nodes that gives something is led to by all others that do. -/
theorem exists_of_findSome?_previous {α : Type} {give : Place → Option α} {given : α}
    (topmost : top.above = []) (inside : inner.Within top) (composite : inner.tree.isLeaf = false)
    (found : inner.previous.findSome? give = some given) :
    ∃ node ∈ inner.previous, give node = some given
      ∧ ∀ other ∈ inner.previous, (give other).isSome →
        ∃ outer path, Leads outer other path node := by
  obtain ⟨near, node, far, split, gives, none⟩ := List.findSome?_eq_some_iff.mp found
  have member : node ∈ inner.previous := by simp [split]
  refine ⟨node, member, gives, fun other otherMember some => ?_⟩
  have ordered := previous_pairwise topmost inside composite
  rw [split] at otherMember ordered
  rcases List.mem_append.mp otherMember with nearer | later
  · simp [none other nearer] at some
  · rcases List.mem_cons.mp later with rfl | farther
    · obtain ⟨-, outer, path, leads⟩ := (mem_previous_iff topmost inside composite).mp member
      exact ⟨outer, other, .refl leads.member (.refl other)⟩
    · have after := (List.pairwise_append.mp ordered).2.1
      exact List.rel_of_pairwise_cons after farther

end Dxl.Place
