import Dxl.Place.Locate
import Dxl.Proofs.Place.Previous
import Dxl.Proofs.Place.Proper

/-! Locating nodes: what belongs to the token of a node that holds a single token leads back to the node. -/

namespace Dxl.Place

variable {place node inner top token : Place} {offset : Nat} {kind : NodeKind}

/-- An offset is in a place just if the place neither starts after it nor ends before it. -/
theorem covers_iff : place.covers offset = true ↔ place.start ≤ offset ∧ offset ≤ place.stop := by
  simp [covers]

/-- The search goes on in the first node at the offset. -/
theorem nodeAt?_eq_of_find? (found : place.nodes.find? (·.covers offset) = some node) :
    place.nodeAt? offset = node.nodeAt? offset := by
  rw [nodeAt?]
  split
  · rename_i child other
    rw [found] at other
    rw [Option.some.inj other]
  · rename_i missing
    simp [found] at missing

/-- The search ends where no node is at the offset. -/
theorem nodeAt?_eq_of_find?_eq_none (missing : place.nodes.find? (·.covers offset) = none) :
    place.nodeAt? offset = if place.tokens.any (·.covers offset) then some place else none := by
  rw [nodeAt?]
  split
  · rename_i other
    simp [missing] at other
  · rfl

/-- The node that is located is within the place that was searched. -/
theorem within_of_nodeAt? (located : place.nodeAt? offset = some node) : node.Within place := by
  induction place using nodeAt?.induct offset with
  | case1 place child found ih =>
    rw [nodeAt?_eq_of_find? found] at located
    exact (ih located).trans (.inr (below_of_mem_nodes (List.mem_of_find?_eq_some found)))
  | case2 place missing covered =>
    rw [nodeAt?_eq_of_find?_eq_none missing, if_pos covered] at located
    exact .inl (Option.some.inj located).symm
  | case3 place missing uncovered =>
    rw [nodeAt?_eq_of_find?_eq_none missing, if_neg uncovered] at located
    cases located

/-- The search goes on in the node which an offset after its start still belongs to. -/
theorem nodeAt?_of_mem_nodes (member : node ∈ place.nodes) (after : node.start < offset)
    (upTo : offset ≤ node.stop) : place.nodeAt? offset = node.nodeAt? offset := by
  have located : place.nodes.find? (·.covers offset) = some node := by
    obtain ⟨earlier, later, split⟩ := List.append_of_mem member
    have ordered := place.nodes_pairwise
    rw [split] at ordered
    refine List.find?_eq_some_iff_append.mpr
      ⟨covers_iff.mpr (by omega), earlier, later, split, fun other before => ?_⟩
    -- What comes earlier ends before the offset.
    have := (List.pairwise_append.mp ordered).2.2 other before node (by simp)
    have ends : ¬ offset ≤ other.stop := by omega
    simp [covers, ends]
  exact nodeAt?_eq_of_find? located

/-- The search passes through every node around the one it finds. -/
theorem nodeAt?_of_below (below : Below inner top) (composite : inner.tree.isLeaf = false)
    (after : inner.start < offset) (upTo : offset ≤ inner.stop) :
    top.nodeAt? offset = inner.nodeAt? offset := by
  induction below with
  | child member => exact nodeAt?_of_mem_nodes (mem_nodes_iff.mpr ⟨member, composite⟩) after upTo
  | deeper member below ih =>
    have range := range_of_mem_children member
    rw [ih ((Within.of_mem_children member).isLeaf composite) (by omega) (by omega)]
    exact nodeAt?_of_mem_nodes (mem_nodes_iff.mpr ⟨member, composite⟩) after upTo

/-- Every offset that belongs to the token of a node which holds a single token is located in that node. -/
theorem nodeAt?_of_firstToken? (proper : top.Proper) (below : Below inner top)
    (isNode : inner.kind = .node kind) (atom : kind.isAtom = true)
    (first : inner.firstToken? = some token) (after : token.start < offset)
    (upTo : offset ≤ token.stop) : top.nodeAt? offset = some inner := by
  have innerProper := proper.of_within (.inr below)
  have member := List.mem_of_find?_eq_some first
  obtain ⟨trees, same⟩ := innerProper.exists_children isNode
  have range := range_of_mem_children (List.mem_filter.mp member).1
  rw [nodeAt?_of_below below (by rw [same]; rfl) (by omega) (by omega),
    nodeAt?_eq_of_find?_eq_none (by simp [innerProper.nodes_eq_nil isNode atom]), if_pos]
  exact List.any_eq_true.mpr ⟨token, member, covers_iff.mpr (by omega)⟩

end Dxl.Place
