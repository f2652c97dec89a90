import Dxl.View.Basic

/-! Locating the token and the node at an offset. -/

namespace Dxl.Place

/-- The token at an offset; an offset between two tokens belongs to the first of them. -/
def tokenAt? (offset : Nat) (place : Place) : Option Place :=
  match _located : place.children.find? (·.covers offset) with
  | none => none
  | some child => if child.isToken then some child else tokenAt? offset child
termination_by place.tree.size
decreasing_by
  exact size_lt_of_mem_children (List.mem_of_find?_eq_some _located)

/-- The innermost node with a token at an offset, in the first node that reaches so far. -/
def nodeAt? (offset : Nat) (place : Place) : Option Place :=
  -- A node at the offset is preferred to the tokens beside it.
  match _located : place.nodes.find? (·.covers offset) with
  | some child => nodeAt? offset child
  | none => if place.tokens.any (·.covers offset) then some place else none
termination_by place.tree.size
decreasing_by
  exact (below_of_mem_nodes (List.mem_of_find?_eq_some _located)).size_lt

end Dxl.Place
