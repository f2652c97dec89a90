import Dxl.Proofs.Place.Order
import Dxl.Proofs.Tree.Shape

/-! Proper places: which nodes and tokens stand right below a place in a tree that was parsed. -/

namespace Dxl.Place

/-- A place whose tree is sound and without flaws. -/
structure Proper (place : Place) : Prop where
  sound : place.tree.Sound
  flawless : place.tree.Flawless

variable {place child inner outer : Place} {kind : NodeKind}

/-- A row of trees is followed by the rows of further ones. -/
theorem row_append (above : List (Tree × Nat)) (start : Nat) (left right : List Tree) :
    row above start (left ++ right)
      = row above start left ++ row above (start + total (left.map Tree.width)) right := by
  induction left generalizing start with
  | nil => rfl
  | cons tree rest ih => simp [row, ih, Nat.add_assoc]

/-- The nodes in a row have the kinds of the nodes among its trees. -/
theorem kinds_row {above : List (Tree × Nat)} (inside : above ≠ []) {trees : List Tree}
    (flawless : ∀ tree ∈ trees, tree.Flawless) (start : Nat) :
    ((row above start trees).filter (fun child => !child.isToken)).map Place.kind
      = (Tree.nodeKinds trees).map Kind.node := by
  induction trees generalizing start with
  | nil => rfl
  | cons tree rest ih =>
    have others := ih (fun other member => flawless other (by simp [member])) (start + tree.width)
    simp only [row, Tree.nodeKinds, List.filterMap_cons, List.filter_cons] at others ⊢
    -- A flawless tree is a token or a node.
    rcases flawless tree (by simp) with nonempty | below
    · simpa [isToken, Tree.isLeaf, inside, Tree.nodeKind?] using others
    · simpa [isToken, Tree.isLeaf, Tree.nodeKind?, Place.kind, Tree.kind] using others

namespace Proper

/-- A place of the kind of a node is a node. -/
theorem exists_children (proper : place.Proper) (isNode : place.kind = .node kind) :
    ∃ children, place.tree = .node (.node kind) children := by
  obtain ⟨tree, start, above⟩ := place
  rcases proper.flawless with nonempty | @⟨other, children, below⟩
  · cases isNode
  · cases isNode
    exact ⟨children, rfl⟩

/-- What is right below a proper place is proper. -/
theorem of_mem_children (proper : place.Proper) (member : child ∈ place.children) :
    child.Proper := by
  have inside := tree_of_mem_row member
  obtain ⟨tree, start, above⟩ := place
  rcases proper.flawless with nonempty | below
  · simp [Tree.children] at inside
  · cases proper.sound with
    | node sound => exact ⟨sound _ inside, below _ inside⟩

/-- What is within a proper place is proper. -/
theorem of_within (proper : outer.Proper) (within : inner.Within outer) : inner.Proper := by
  rcases within with rfl | below
  · exact proper
  · induction below with
    | child member => exact proper.of_mem_children member
    | deeper member _ ih => exact (ih proper).of_mem_children member

/-- A token is not empty. -/
theorem start_lt_stop (proper : place.Proper) {kind : TokenKind}
    (isToken : place.kind = .token kind) : place.start < place.stop := by
  obtain ⟨tree, start, above⟩ := place
  rcases proper.flawless with nonempty | below
  · exact Nat.lt_add_of_pos_right
      (Nat.pos_of_ne_zero fun zero => nonempty (String.utf8ByteSize_eq_zero_iff.mp zero))
  · cases isToken

/-- A proper token has a text. -/
theorem text_ne_empty (proper : place.Proper) (isToken : place.isToken = true) :
    place.text ≠ "" := by
  obtain ⟨tree, start, above⟩ := place
  rcases proper.flawless with nonempty | below
  · exact nonempty
  · cases isToken

/-- The nodes right below a proper node are of kinds that its own kind admits. -/
theorem nodes (proper : place.Proper) (isNode : place.kind = .node kind) :
    ∃ kinds, place.nodes.map Place.kind = kinds.map Kind.node ∧ kind.admits kinds = true := by
  obtain ⟨trees, same⟩ := proper.exists_children isNode
  have sound := same ▸ proper.sound
  have flawless := same ▸ proper.flawless
  cases sound with
  | node sound admitted single =>
    refine ⟨Tree.nodeKinds trees, ?_, admitted⟩
    rw [Place.nodes, Place.children, same, Tree.children]
    cases flawless with
    | node below => exact kinds_row (by simp) below _

/-- A node right below a proper place is of a kind that the place may hold. -/
theorem exists_kinds (proper : place.Proper) (member : child ∈ place.nodes) :
    ∃ outer inner, place.kind = .node outer ∧ child.kind = .node inner
      ∧ outer.mayHold inner = true := by
  have inside := tree_of_mem_row (List.mem_filter.mp member).1
  obtain ⟨kind, isNode⟩ : ∃ kind, place.kind = .node kind := by
    obtain ⟨tree, start, above⟩ := place
    rcases proper.flawless with nonempty | below
    · simp [Tree.children] at inside
    · exact ⟨_, rfl⟩
  obtain ⟨kinds, same, admitted⟩ := proper.nodes isNode
  have mapped : child.kind ∈ kinds.map Kind.node := same ▸ List.mem_map_of_mem member
  obtain ⟨inner, memberKind, innerKind⟩ := List.mem_map.mp mapped
  exact ⟨kind, inner, isNode, innerKind.symm,
    List.all_eq_true.mp (NodeKind.all_mayHold admitted) inner memberKind⟩

/-- There is nothing below a node that holds a single token. -/
theorem nodes_eq_nil (proper : place.Proper) (isNode : place.kind = .node kind)
    (atom : kind.isAtom = true) : place.nodes = [] := by
  obtain ⟨kinds, same, admitted⟩ := proper.nodes isNode
  have none : kinds = [] := by
    cases kind <;> first | exact List.isEmpty_iff.mp admitted | cases atom
  rw [none] at same
  exact List.map_eq_nil_iff.mp same

/-- A node within a node that holds a single token is that node. -/
theorem eq_of_within_atom (proper : outer.Proper) (isNode : outer.kind = .node kind)
    (atom : kind.isAtom = true) (within : inner.Within outer)
    (composite : inner.tree.isLeaf = false) : inner = outer := by
  rcases within with same | below
  · exact same
  · obtain ⟨child, member, -⟩ := below.exists_node composite
    simp [proper.nodes_eq_nil isNode atom] at member

/-- A node that holds a single token ends with it. -/
theorem exists_token (proper : place.Proper) (isNode : place.kind = .node kind)
    (atom : kind.isAtom = true) :
    ∃ token, place.firstToken? = some token ∧ token ∈ place.tokens ∧ token.stop = place.stop
      ∧ token.start < token.stop := by
  obtain ⟨trees, same⟩ := proper.exists_children isNode
  obtain ⟨tree, start, above⟩ := place
  subst same
  cases proper.sound with
  | node _ _ single =>
    obtain ⟨trivia, tokenKind, text, rfl, significant, insignificant⟩ := single atom
    obtain ⟨-, flawless⟩ := proper
    cases flawless with
    | node flawless =>
      generalize inside : (Tree.node (.node kind) (trivia ++ [.leaf (.token tokenKind) text]), start)
        :: above = around
      let token : Place :=
        ⟨.leaf (.token tokenKind) text, start + total (trivia.map Tree.width), around⟩
      have nonempty : 0 < text.utf8ByteSize := by
        cases flawless (.leaf (.token tokenKind) text) (by simp) with
        | leaf nonempty =>
          exact Nat.pos_of_ne_zero fun zero => nonempty (String.utf8ByteSize_eq_zero_iff.mp zero)
      have tokens : tokens ⟨.node (.node kind) (trivia ++ [.leaf (.token tokenKind) text]), start,
          above⟩ = (row around start trivia).filter isToken ++ [token] := by
        simp only [Place.tokens, children, Tree.children, row_append, List.filter_append, inside]
        simp [row, token, isToken, Tree.isLeaf, ← inside]
      refine ⟨token, ?_, by simp [tokens], ?_, Nat.lt_add_of_pos_right nonempty⟩
      · -- What stands before the token is trivia.
        have skipped : ((row around start trivia).filter isToken).find?
            (fun token => !token.kind.passes TokenKind.isTrivia) = none := by
          rw [List.find?_eq_none]
          intro other member
          have trivial := insignificant _ (tree_of_mem_row (List.mem_filter.mp member).1)
          obtain ⟨tree, start, above⟩ := other
          rcases tree with ⟨kind | kind, text⟩ | _
          · simpa [Place.kind, Tree.kind, Kind.passes, Tree.isTrivia] using trivial
          · cases trivial
          · cases trivial
        rw [firstToken?, tokens, List.find?_append, skipped]
        simp [token, Place.kind, Tree.kind, Kind.passes, significant]
      · simp [stop, token, Nat.add_assoc]

end Proper

end Dxl.Place
