import Dxl.Proofs.Place.Locate
import Dxl.Proofs.Place.Tiling

/-! Searching: which token is at an offset, and which empty nodes keep the search for a node from coming to it. -/

namespace Dxl.Place

variable {place child leaf node empty inner outer top : Place} {places : List Place}
  {offset start stop : Nat}

/-- The first child at the offset is the token there, or the search goes on in it. -/
theorem tokenAt?_eq_of_find? (found : place.children.find? (·.covers offset) = some child) :
    place.tokenAt? offset = if child.isToken then some child else child.tokenAt? offset := by
  rw [tokenAt?]
  split
  · rename_i missing
    simp [found] at missing
  · rename_i first other
    rw [found] at other
    rw [Option.some.inj other]

/-- There is no token at the offset if there is no child. -/
theorem tokenAt?_eq_none (missing : place.children.find? (·.covers offset) = none) :
    place.tokenAt? offset = none := by
  rw [tokenAt?]
  split
  · rfl
  · rename_i first other
    simp [missing] at other

/-- Of places without gaps, the first at an offset after their start begins before the offset. -/
theorem Tiled.exists_find? (tiled : Tiled start stop places) (after : start < offset)
    (upTo : offset ≤ stop) :
    ∃ place, places.find? (·.covers offset) = some place ∧ place.start < offset
      ∧ offset ≤ place.stop := by
  induction places generalizing start with
  | nil =>
    have same : start = stop := tiled
    omega
  | cons place rest ih =>
    obtain ⟨begins, further⟩ := tiled
    by_cases reaches : offset ≤ place.stop
    · have covered : place.covers offset = true := covers_iff.mpr (by omega)
      exact ⟨place, List.find?_cons_of_pos covered, by omega, reaches⟩
    · -- A place that ends before the offset is passed over, and the others begin where it ends.
      have passed : (place :: rest).find? (·.covers offset) = rest.find? (·.covers offset) :=
        List.find?_cons_of_neg (by simp [covers, reaches])
      rw [passed]
      exact ih further (by omega)

/-- Places without gaps, if there are any, leave out no offset. -/
theorem Tiled.exists_covers (tiled : Tiled start stop places) (some : places ≠ [])
    (begins : start ≤ offset) (upTo : offset ≤ stop) :
    ∃ place ∈ places, place.covers offset = true := by
  rcases Nat.lt_or_ge start offset with after | reached
  · obtain ⟨place, found, -⟩ := tiled.exists_find? after upTo
    have reached := List.find?_some found
    exact ⟨place, List.mem_of_find?_eq_some found, reached⟩
  · -- At the very start stands the first place.
    obtain ⟨place, rest, rfl⟩ := List.exists_cons_of_ne_nil some
    have := place.start_le_stop
    have := tiled.1
    exact ⟨place, by simp, covers_iff.mpr (by omega)⟩

/-- At every offset after the start of a node, up to its end, there is a token that begins before the offset. -/
theorem exists_tokenAt? (composite : place.tree.isLeaf = false) (after : place.start < offset)
    (upTo : offset ≤ place.stop) :
    ∃ leaf, place.tokenAt? offset = some leaf ∧ Below leaf place ∧ leaf.isToken = true
      ∧ leaf.start < offset ∧ offset ≤ leaf.stop := by
  induction place using induct with
  | step place ih =>
    obtain ⟨child, found, begins, reaches⟩ := (tiled_children composite).exists_find? after upTo
    have member := List.mem_of_find?_eq_some found
    have below : Below child place := .child member
    rw [tokenAt?_eq_of_find? found]
    cases isToken : child.isToken with
    | true => exact ⟨child, rfl, below, isToken, begins, reaches⟩
    | false =>
      -- The child is a node, and the offset comes after its start as well.
      obtain ⟨leaf, located, deeper, rest⟩ :=
        ih child member (below.isToken_eq ▸ isToken) begins reaches
      exact ⟨leaf, located, deeper.trans below, rest⟩

/-- There is no token at an offset outside of a place. -/
theorem tokenAt?_eq_none_of_outside (outside : offset < place.start ∨ place.stop < offset) :
    place.tokenAt? offset = none := by
  refine tokenAt?_eq_none (List.find?_eq_none.mpr fun child member covered => ?_)
  have range := range_of_mem_children member
  have := covers_iff.mp covered
  omega

/-- The token at an offset after the start of a tree, up to its end, is the only token of the tree that begins before the offset and reaches up to it, wherever empty nodes and empty tokens stand; outside of the tree there is none. -/
theorem tokenAt?_root (kind : Kind) (children : List Tree) (base offset : Nat) :
    let top := root (.node kind children) base
    (base < offset → offset ≤ base + (Tree.node kind children).width →
      ∃ leaf, top.tokenAt? offset = some leaf
        ∧ (leaf ∈ top.elements ∧ leaf.isToken = true ∧ leaf.start < offset ∧ offset ≤ leaf.stop)
        ∧ ∀ other ∈ top.elements, other.isToken = true → other.start < offset →
            offset ≤ other.stop → other = leaf)
      ∧ (offset < base ∨ base + (Tree.node kind children).width < offset →
          top.tokenAt? offset = none) := by
  intro top
  refine ⟨fun after upTo => ?_, fun outside => tokenAt?_eq_none_of_outside outside⟩
  have composite : top.tree.isLeaf = false := rfl
  obtain ⟨leaf, located, below, isToken, begins, reaches⟩ := exists_tokenAt? composite after upTo
  refine ⟨leaf, located, ⟨mem_elements_iff.mpr (.inr below), isToken, begins, reaches⟩, ?_⟩
  intro other member otherIsToken otherBegins otherReaches
  -- Tokens do not overlap, so another one that reaches up to the offset is this one.
  rcases eq_or_le_of_isLeaf (mem_elements_iff.mp member) (.inr below)
    (isLeaf_of_isToken otherIsToken) (isLeaf_of_isToken isToken) with same | before | after
  · exact same
  · omega
  · omega

/-- Between a token and the empty node after it the token is found, after the end of the tree none is. -/
theorem tokenAt?_root_between :
    let tree : Tree := .node (.node .root) [.leaf (.token .name) "é", .node (.node .argList) [],
      .node (.node .exprStmt) [.node (.node .argList) [], .leaf (.token .integer) "12"]]
    (∃ leaf, (root tree 5).tokenAt? 7 = some leaf ∧ leaf.start = 5 ∧ leaf.stop = 7)
      ∧ (root tree 5).tokenAt? 10 = none := by
  intro tree
  have reaches : 7 ≤ 5 + tree.width := by decide
  have outside : 5 + tree.width < 10 := by decide
  obtain ⟨leaf, located, -, only⟩ := (tokenAt?_root _ _ 5 7).1 (by decide) reaches
  have member := List.mem_of_getElem? (l := (root tree 5).elements) (i := 1) rfl
  have same := only _ member rfl (by decide) (by decide)
  exact ⟨⟨leaf, located, same ▸ rfl, same ▸ rfl⟩, (tokenAt?_root _ _ 5 10).2 (.inr outside)⟩

/-- An empty node stands at an offset in a tree, and no node beside the path to it ends there. -/
structure Hides (top empty : Place) (offset : Nat) : Prop where
  below : Below empty top
  composite : empty.tree.isLeaf = false
  begins : empty.start = offset
  ends : empty.stop = offset
  first : ∀ node ∈ empty.previous, node.stop = offset → Below empty node

/-- The node that is located has a token at the offset. -/
theorem covers_of_nodeAt? (located : place.nodeAt? offset = some node) :
    ∃ near ∈ node.tokens, near.covers offset = true := by
  induction place using nodeAt?.induct offset with
  | case1 place child found ih => exact ih (nodeAt?_eq_of_find? found ▸ located)
  | case2 place missing covered =>
    rw [nodeAt?_eq_of_find?_eq_none missing, if_pos covered] at located
    cases located
    exact List.any_eq_true.mp covered
  | case3 place missing uncovered =>
    rw [nodeAt?_eq_of_find?_eq_none missing, if_neg uncovered] at located
    cases located

/-- A token of a proper place is not empty. -/
theorem Proper.start_lt_stop_of_mem_tokens (proper : place.Proper) (member : leaf ∈ place.tokens) :
    leaf.start < leaf.stop := by
  obtain ⟨inside, isToken⟩ := List.mem_filter.mp member
  have inner := proper.of_mem_children inside
  obtain ⟨tree, start, above⟩ := leaf
  rcases inner.flawless with nonempty | below
  · exact inner.start_lt_stop rfl
  · cases isToken

/-- Nothing is located in an empty place. -/
theorem Proper.nodeAt?_eq_none (proper : place.Proper) (hollow : place.start = place.stop) :
    place.nodeAt? offset = none := by
  induction place using nodeAt?.induct offset with
  | case1 place child found ih =>
    have member := (List.mem_filter.mp (List.mem_of_find?_eq_some found)).1
    have range := range_of_mem_children member
    have order := child.start_le_stop
    rw [nodeAt?_eq_of_find? found]
    exact ih (proper.of_mem_children member) (by omega)
  | case2 place missing covered =>
    obtain ⟨token, member, -⟩ := List.any_eq_true.mp covered
    have nonempty := proper.start_lt_stop_of_mem_tokens member
    have range := range_of_mem_children (List.mem_filter.mp member).1
    omega
  | case3 place missing uncovered =>
    rw [nodeAt?_eq_of_find?_eq_none missing, if_neg uncovered]

/-- Of places that follow each other, the first at an offset ends before the others there start. -/
theorem eq_or_le_of_find? (ordered : places.Pairwise fun left right => left.stop ≤ right.start)
    (found : places.find? (·.covers offset) = some child) (member : node ∈ places)
    (covered : node.covers offset = true) : child = node ∨ child.stop ≤ node.start := by
  obtain ⟨-, earlier, later, rfl, passed⟩ := List.find?_eq_some_iff_append.mp found
  rcases List.mem_append.mp member with before | rest
  · have uncovered := passed node before
    simp [covered] at uncovered
  · rcases List.mem_cons.mp rest with same | after
    · exact .inl same.symm
    · exact .inr (List.rel_of_pairwise_cons (List.pairwise_append.mp ordered).2.1 after)

/-- Nothing is located around an empty node that hides what is at an offset. -/
theorem Hides.nodeAt?_eq_none (proper : top.Proper) (topmost : top.above = [])
    (hides : Hides top empty offset) (around : empty.Within place) (within : place.Within top) :
    place.nodeAt? offset = none := by
  induction place using induct with
  | step place ih =>
    have placeProper := proper.of_within within
    rcases around with rfl | below
    · exact placeProper.nodeAt?_eq_none (hides.begins.trans hides.ends.symm)
    · -- The search goes on in the node around the empty one, or in an empty node before that.
      obtain ⟨path, onPath, inPath⟩ := below.exists_node hides.composite
      have range := inPath.range
      have begins := hides.begins
      have ends := hides.ends
      have covered : path.covers offset = true := covers_iff.mpr (by omega)
      obtain ⟨child, found⟩ : ∃ child, place.nodes.find? (·.covers offset) = some child :=
        Option.isSome_iff_exists.mp (List.find?_isSome.mpr ⟨path, onPath, covered⟩)
      have member := List.mem_of_find?_eq_some found
      have inside := (List.mem_filter.mp member).1
      rw [nodeAt?_eq_of_find? found]
      rcases eq_or_le_of_find? place.nodes_pairwise found onPath covered with rfl | before
      · exact ih child inside inPath ((Within.of_mem_children inside).trans within)
      · have reached := List.find?_some found
        have reaches := (covers_iff.mp reached).2
        rcases Nat.lt_or_ge child.start offset with earlier | hollow
        · -- A node that ends at the offset is around the empty one, so it is the path itself.
          have leads : Leads place child path empty := ⟨member, onPath, inPath, .inr before⟩
          have previous : child ∈ empty.previous :=
            (mem_previous_iff topmost (.inr hides.below) hides.composite).mpr
              ⟨by omega, place, path, leads⟩
          have around := hides.first child previous (by omega)
          have same := eq_of_within_children inside (List.mem_filter.mp onPath).1 (.inr around) inPath
          exact ih child inside (same ▸ inPath) ((Within.of_mem_children inside).trans within)
        · have order := child.start_le_stop
          exact (placeProper.of_mem_children inside).nodeAt?_eq_none (by omega)

/-- A node around an offset in which nothing is located has an empty node at the offset, beside which no node ends there. -/
theorem exists_hides (topmost : top.above = []) (composite : place.tree.isLeaf = false)
    (within : place.Within top) (after : top.start < offset)
    (covered : place.covers offset = true) (missing : place.nodeAt? offset = none)
    (first : ∀ outer node, Below place outer → node ∈ outer.nodes → node.start < offset →
      node.stop = offset → place.Within node) :
    ∃ empty, Hides top empty offset := by
  induction place using nodeAt?.induct offset with
  | case1 place child found ih =>
    have member := List.mem_of_find?_eq_some found
    obtain ⟨inside, childComposite⟩ := mem_nodes_iff.mp member
    have reaches := List.find?_some found
    rw [nodeAt?_eq_of_find? found] at missing
    refine ih childComposite ((Within.of_mem_children inside).trans within) reaches missing ?_
    intro outer node below beside begins ends
    rcases below.within_of_mem_children inside with rfl | further
    · -- The child is the first node there.
      rcases eq_or_le_of_find? place.nodes_pairwise found beside (covers_iff.mpr (by omega)) with
        same | before
      · exact .inl same
      · have := (covers_iff.mp reaches).2
        omega
    · exact (Within.of_mem_children inside).trans (first outer node further beside begins ends)
  | case2 place none some =>
    rw [nodeAt?_eq_of_find?_eq_none none, if_pos some] at missing
    cases missing
  | case3 place none uncovered =>
    -- Neither a node nor a token is at the offset, so there is nothing in the place.
    have bare : place.children = [] := by
      by_contra some
      obtain ⟨child, inside, reached⟩ := (tiled_children composite).exists_covers some
        (covers_iff.mp covered).1 (covers_iff.mp covered).2
      cases isToken : child.isToken with
      | true =>
        exact uncovered (List.any_eq_true.mpr ⟨child, List.mem_filter.mpr ⟨inside, isToken⟩, reached⟩)
      | false =>
        exact List.find?_eq_none.mp none child (List.mem_filter.mpr ⟨inside, by simp [isToken]⟩)
          reached
    have hollow : place.start = place.stop := by
      have tiled := tiled_children composite
      rwa [bare] at tiled
    have reached := covers_iff.mp covered
    have below : Below place top := by
      rcases within with rfl | below
      · omega
      · exact below
    refine ⟨place, below, composite, by omega, by omega, fun node previous ends => ?_⟩
    obtain ⟨begins, outer, path, leads⟩ :=
      (mem_previous_iff topmost within composite).mp previous
    rcases first outer node leads.below leads.member (by omega) ends with rfl | inside
    · omega
    · exact inside

/-- If there is a token at the very start of a place, then a node is located there. -/
theorem exists_nodeAt?_start (proper : place.Proper) (begins : place.start = offset)
    (located : place.tokenAt? offset = some leaf) : ∃ node, place.nodeAt? offset = some node := by
  induction place using induct with
  | step place ih =>
    cases found : place.children.find? (·.covers offset) with
    | none => simp [tokenAt?_eq_none found] at located
    | some child =>
      have member := List.mem_of_find?_eq_some found
      have reached := List.find?_some found
      have starts : child.start = offset := by
        have := range_of_mem_children member
        have := covers_iff.mp reached
        omega
      cases isToken : child.isToken with
      | true =>
        -- What comes after the token starts after the offset.
        have isMember : child ∈ place.tokens := List.mem_filter.mpr ⟨member, isToken⟩
        have nonempty := proper.start_lt_stop_of_mem_tokens isMember
        have none : place.nodes.find? (·.covers offset) = none := by
          refine List.find?_eq_none.mpr fun node beside covered => ?_
          obtain ⟨inside, isNode⟩ := List.mem_filter.mp beside
          rcases eq_or_le_of_find? place.children_pairwise found inside covered with rfl | after
          · simp [isToken] at isNode
          · have := covers_iff.mp covered
            omega
        rw [nodeAt?_eq_of_find?_eq_none none, if_pos (List.any_eq_true.mpr ⟨child, isMember, reached⟩)]
        exact ⟨place, rfl⟩
      | false =>
        -- The first child at the offset is the first node there.
        have first : place.nodes.find? (·.covers offset) = some child := by
          obtain ⟨covered, earlier, later, split, passed⟩ :=
            List.find?_eq_some_iff_append.mp found
          rw [nodes, List.find?_filter]
          exact List.find?_eq_some_iff_append.mpr ⟨by simpa [isToken] using covered, earlier, later,
            split, fun other before => by simp [passed other before]⟩
        rw [tokenAt?_eq_of_find? found, isToken] at located
        rw [nodeAt?_eq_of_find? first]
        exact ih child member (proper.of_mem_children member) starts located

/-- Where there is a token, a node is located just if no empty node hides what is there. -/
theorem nodeAt?_eq_none_iff (proper : top.Proper) (topmost : top.above = [])
    (composite : top.tree.isLeaf = false) (located : top.tokenAt? offset = some leaf) :
    top.nodeAt? offset = none ↔ ∃ empty, Hides top empty offset := by
  constructor
  · intro missing
    -- The token shows that the offset is in the tree.
    have covered : top.covers offset = true := by
      by_contra uncovered
      have outside : offset < top.start ∨ top.stop < offset := by
        rw [covers_iff] at uncovered
        omega
      simp [tokenAt?_eq_none_of_outside outside] at located
    rcases Nat.lt_or_ge top.start offset with after | start
    · -- Nothing is above the top, so no node beside the path has been passed yet.
      refine exists_hides topmost composite (.refl top) after covered missing ?_
      intro outer node below
      obtain ⟨between, same⟩ := below.ancestors_eq
      simp [ancestors, topmost, chain] at same
    · have begins : top.start = offset := by
        have := covers_iff.mp covered
        omega
      obtain ⟨node, found⟩ := exists_nodeAt?_start proper begins located
      simp [missing] at found
  · rintro ⟨empty, hides⟩
    exact hides.nodeAt?_eq_none proper topmost (.inr hides.below) (.refl top)

end Dxl.Place
