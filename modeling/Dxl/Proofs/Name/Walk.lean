import Dxl.Proofs.Name.Visibility

/-! The walk over the uses of a name: a use is listed just if no node that leads to it hides it. -/

namespace Dxl

namespace UseQuery

variable {query : UseQuery} {node other outer token top : Place} {nodes : List Place}
  {until_ : Nat} {below : Place → List Place}

/-- Nothing is listed of nodes that all end by the given offset. -/
theorem among_eq_nil {pairs : List (Place × List Place)}
    (ends : ∀ pair ∈ pairs, pair.1.stop ≤ until_) : query.among until_ pairs = [] := by
  induction pairs with
  | nil => rfl
  | cons pair rest ih =>
    rw [among, if_pos (ends pair (by simp))]
    exact ih fun other member => ends other (by simp [member])

/-- Among nodes of which one that hides the name hides it from all others, the ones before it are listed. -/
theorem among_eq_flatMap
    (hides : ∀ node ∈ nodes, query.isHiddenBy node = true → ∀ other ∈ nodes,
      other.stop ≤ hiddenUntil node until_) :
    query.among until_ (nodes.map fun node => (node, below node))
      = ((nodes.filter (until_ < ·.stop)).takeWhile (!query.isHiddenBy ·)).flatMap fun node =>
          (node.use? query.name).toList ++ below node := by
  induction nodes with
  | nil => rfl
  | cons node rest ih =>
    have ih := ih fun node member hidden other later =>
      hides node (.tail _ member) hidden other (.tail _ later)
    rw [List.map_cons, among]
    by_cases passed : node.stop ≤ until_
    · rw [if_pos passed, List.filter_cons_of_neg (by simpa using passed), ih]
    · rw [if_neg passed, List.filter_cons_of_pos (by simpa using passed)]
      cases hidden : query.isHiddenBy node with
      | true =>
        rw [List.takeWhile_cons_of_neg (by simp [hidden]), if_pos rfl, among_eq_nil]
        · rfl
        · intro pair member
          obtain ⟨other, later, rfl⟩ := List.mem_map.mp member
          exact hides node (by simp) hidden other (.tail _ later)
      | false =>
        rw [List.takeWhile_cons_of_pos (by simp [hidden]), List.flatMap_cons, ih]
        simp

/-- Among places that follow each other, the ones before a failure are those that no failure comes before. -/
theorem mem_takeWhile_iff {test : Place → Bool}
    (ordered : nodes.Pairwise fun left right => left.stop ≤ right.start)
    (nonempty : ∀ place ∈ nodes, test place = false → place.start < place.stop) :
    node ∈ nodes.takeWhile test
      ↔ node ∈ nodes ∧ test node = true
        ∧ ∀ other ∈ nodes, other.stop ≤ node.start → test other = true := by
  induction ordered with
  | nil => simp
  | @cons first rest before ordered ih =>
    have ih := ih fun place member => nonempty place (.tail _ member)
    cases passes : test first with
    | true =>
      rw [List.takeWhile_cons_of_pos passes, List.mem_cons, ih]
      constructor
      · rintro (rfl | ⟨member, holds, earlier⟩)
        · refine ⟨by simp, passes, fun other member ends => ?_⟩
          rcases List.mem_cons.mp member with rfl | later
          · exact passes
          · -- Nothing that comes later ends that early, unless it is empty.
            cases fails : test other with
            | true => rfl
            | false =>
              have := before other later
              have := nonempty other member fails
              have := node.start_le_stop
              omega
        · refine ⟨.tail _ member, holds, fun other inside ends => ?_⟩
          rcases List.mem_cons.mp inside with rfl | later
          · exact passes
          · exact earlier other later ends
      · rintro ⟨member, holds, earlier⟩
        rcases List.mem_cons.mp member with rfl | later
        · exact .inl rfl
        · exact .inr ⟨later, holds, fun other inside => earlier other (.tail _ inside)⟩
    | false =>
      rw [List.takeWhile_cons_of_neg (by simp [passes])]
      simp only [List.not_mem_nil, false_iff]
      rintro ⟨member, holds, earlier⟩
      rcases List.mem_cons.mp member with rfl | later
      · simp [passes] at holds
      · simp [earlier first (by simp) (before node later)] at passes

/-- The uses below a place are those among the nodes right below it. -/
theorem below_eq (query : UseQuery) (place : Place) :
    query.below place
      = query.among query.offset (place.nodes.map fun node => (node, query.below node)) := by
  have zipped : place.children.zip (place.children.map query.below)
      = place.children.map fun child => (child, query.below child) := by
    simpa using List.zip_map' (f := id) (g := query.below) (l := place.children)
  rw [below, Place.fold_eq]
  change query.among query.offset
    ((place.children.zip (place.children.map query.below)).filter fun pair => !pair.1.isToken) = _
  rw [zipped, List.filter_map]
  rfl

/-- A node that hides a name declares it deeper than where it is looked for. -/
theorem exists_of_isHiddenBy (hidden : query.isHiddenBy node = true) :
    ∃ token, node.declares? query.name = some token ∧ query.level < token.level := by
  obtain ⟨token, found⟩ := Option.isSome_iff_exists.mp hidden
  rw [Option.filter_eq_some_iff] at found
  exact ⟨token, found.1, by simpa using found.2⟩

end UseQuery

namespace Place

variable {top place node outer token : Place} {name : String}

/-- A node that declares a name is not empty. -/
theorem start_lt_stop_of_declares (proper : node.Proper)
    (declares : node.declares? name = some token) : node.start < node.stop := by
  obtain ⟨reference, introduces, uses⟩ := exists_introduces declares
  have range := Within.range (.inr introduces.below)
  have nonempty := start_lt_stop_of_isNameRef (proper.of_within (.inr introduces.below))
    (use?_eq_some_iff.mp uses).1
  omega

end Place

namespace UseQuery

open Place

variable {query : UseQuery} {node other outer inner reference token top : Place} {name : String}

/-- The scope of a node that hides a name is not the root. -/
theorem isA_root_of_isHiddenBy (rooted : top.Rooted) (within : outer.Within top)
    (positive : 0 < query.level) (member : node ∈ outer.nodes)
    (hidden : query.isHiddenBy node = true) : node.scope.isA .root = false := by
  have inside : Below node top := Within.below (below_of_mem_nodes member) within
  obtain ⟨token, declares, deeper⟩ := exists_of_isHiddenBy hidden
  obtain ⟨reference, introduces, uses⟩ := exists_introduces declares
  rw [(parent?_of_use? uses).2.1, introduces.level] at deeper
  rw [Bool.eq_false_iff]
  intro isRoot
  have outermost := level_of_scope_root rooted inside isRoot
  obtain ⟨kind, isNode, declares | isList⟩ := introduces.exists_kind
  · -- A declaration right in the root is nested as little as can be.
    have plain : kind.isLevel = false := by cases kind <;> first | rfl | cases declares
    rw [innerLevel_eq isNode, plain] at deeper
    simp only [Bool.false_eq_true, ↓reduceIte] at deeper
    omega
  · -- Parameters have their function as their scope.
    subst isList
    have isFunction := (funcDecl_of_mem_paramList (rooted.proper.of_within within) member isNode).1
    obtain ⟨between, _, split, -, others⟩ := ancestors_eq_scope rooted inside
    rw [ancestors_of_mem_children (List.mem_filter.mp member).1] at split
    rcases List.cons_eq_append_iff.mp split with ⟨-, same⟩ | ⟨further, rfl, -⟩
    · rw [(List.cons.inj same).1, isA, isFunction] at isRoot
      cases isRoot
    · have := others outer (by simp)
      rw [isFunction] at this
      cases this

/-- A node that hides a name hides it from all that follow right below the same place. -/
theorem stop_le_hiddenUntil (rooted : top.Rooted) (within : outer.Within top)
    (positive : 0 < query.level) (member : node ∈ outer.nodes)
    (hidden : query.isHiddenBy node = true) (follows : other ∈ outer.nodes) (until_ : Nat) :
    other.stop ≤ hiddenUntil node until_ := by
  have inside : Below node top := Within.below (below_of_mem_nodes member) within
  rw [hiddenUntil, isA_root_of_isHiddenBy rooted within positive member hidden,
    if_neg (by decide)]
  have around := (below_scope rooted inside).within_of_mem_children (List.mem_filter.mp member).1
  have := around.range
  have := range_of_mem_children (List.mem_filter.mp follows).1
  omega

/-- The uses listed below a place are those of the nodes right below it, up to the first that hides the name. -/
theorem below_eq_flatMap (rooted : top.Rooted) (within : outer.Within top)
    (positive : 0 < query.level) :
    query.below outer
      = ((outer.nodes.filter (query.offset < ·.stop)).takeWhile (!query.isHiddenBy ·)).flatMap
          fun node => (node.use? query.name).toList ++ query.below node := by
  rw [below_eq, among_eq_flatMap fun node member hidden other follows =>
    stop_le_hiddenUntil rooted within positive member hidden follows _]

/-- The uses listed below a place are the uses below the nodes right below it that no node hides. -/
theorem mem_below_iff_nodes (rooted : top.Rooted) (within : outer.Within top)
    (positive : 0 < query.level) :
    token ∈ query.below outer ↔ ∃ path ∈ outer.nodes, query.offset < path.stop
      ∧ (path.use? query.name = some token ∨ token ∈ query.below path)
      ∧ ∀ node ∈ outer.nodes, node = path ∨ node.stop ≤ path.start → query.offset < node.stop →
          query.isHiddenBy node = false := by
  rw [below_eq_flatMap rooted within positive]
  -- A node that hides declares a name, so it is not empty; only then do places order the row.
  have nonempty : ∀ node ∈ outer.nodes.filter (query.offset < ·.stop),
      (!query.isHiddenBy node) = false → node.start < node.stop := by
    intro node member hides
    obtain ⟨token, declares, -⟩ := exists_of_isHiddenBy (by simpa using hides)
    have inNodes := (List.mem_filter.mp (List.mem_filter.mp member).1).1
    exact start_lt_stop_of_declares ((rooted.proper.of_within within).of_mem_children inNodes) declares
  rw [List.mem_flatMap]
  constructor
  · rintro ⟨path, listed, inside⟩
    rw [mem_takeWhile_iff (outer.nodes_pairwise.filter _) nonempty] at listed
    obtain ⟨member, visible, earlier⟩ := listed
    rw [List.mem_filter] at member
    refine ⟨path, member.1, by simpa using member.2, by simpa using inside, ?_⟩
    rintro node inNodes (rfl | before) reaches
    · simpa using visible
    · simpa using earlier node (List.mem_filter.mpr ⟨inNodes, by simpa using reaches⟩) before
  · rintro ⟨path, member, reaches, inside, earlier⟩
    refine ⟨path, (mem_takeWhile_iff (outer.nodes_pairwise.filter _) nonempty).mpr ⟨?_, ?_, ?_⟩,
      by simpa using inside⟩
    · exact List.mem_filter.mpr ⟨member, by simpa using reaches⟩
    · simpa using earlier path member (.inl rfl) reaches
    · intro node listed before
      rw [List.mem_filter] at listed
      simpa using earlier node listed.1 (.inr before) (by simpa using listed.2)

/-- A reference below a place ends after the offset, and nothing that leads to it from there hides it. -/
structure Reaches (query : UseQuery) (outer reference : Place) : Prop where
  below : Below reference outer
  ends : query.offset < reference.stop
  visible : ∀ middle node path, middle.Within outer → Leads middle node path reference →
    query.offset < node.stop → query.isHiddenBy node = false

/-- The uses listed below a place are those that the walk reaches. -/
theorem mem_below_iff (rooted : top.Rooted) (within : outer.Within top)
    (positive : 0 < query.level) :
    token ∈ query.below outer
      ↔ ∃ reference, reference.use? query.name = some token ∧ query.Reaches outer reference := by
  -- The walk goes down one child at a time.
  induction outer using Place.induct with
  | step outer ih =>
    have child : ∀ {path : Place}, path ∈ outer.nodes → path ∈ outer.children := fun member =>
      (List.mem_filter.mp member).1
    have ih := fun {path : Place} (member : path ∈ outer.nodes) =>
      ih path (child member) (.inr (Within.below (below_of_mem_nodes member) within))
    rw [mem_below_iff_nodes rooted within positive]
    constructor
    · rintro ⟨path, member, reaches, uses | inside, earlier⟩
      · have below := below_of_mem_nodes member
        refine ⟨path, uses, below, reaches, ?_⟩
        rintro middle node way (rfl | deeper) leads past
        · have same := eq_of_within_children (child leads.onPath) (child member) leads.within
            (.refl path)
          exact earlier node leads.member (same ▸ leads.first) past
        · -- Nothing is between the node and the place it is right below of.
          have above := leads.below.within_of_mem_children (child member)
          exact absurd (Within.trans_below above deeper) (not_below_self outer)
      · obtain ⟨reference, uses, below, ends, visible⟩ := (ih member).mp inside
        refine ⟨reference, uses, below.trans (below_of_mem_nodes member), ends, ?_⟩
        rintro middle node way (rfl | deeper) leads past
        · have same := eq_of_within_children (child leads.onPath) (child member) leads.within
            (.inr below)
          exact earlier node leads.member (same ▸ leads.first) past
        · obtain ⟨other, sibling, inner⟩ := deeper.exists_child
          have same := eq_of_within_children sibling (child member)
            (.inr (Within.below leads.below inner)) (.inr below)
          exact visible middle node way (same ▸ inner) leads past
    · rintro ⟨reference, uses, below, ends, visible⟩
      have names := (use?_eq_some_iff.mp uses).1
      have composite := isLeaf_of_isNameRef
        (rooted.proper.of_within (.inr (Within.below below within))) names
      obtain ⟨path, member, inPath⟩ := below.exists_node composite
      have range := inPath.range
      refine ⟨path, member, by omega, ?_, fun node inNodes first past =>
        visible outer node path (.refl outer) ⟨inNodes, member, inPath, first⟩ past⟩
      rcases inPath with rfl | deeper
      · exact .inl uses
      · refine .inr ((ih member).mpr ⟨reference, uses, deeper, ends, ?_⟩)
        intro middle node way inner leads past
        exact visible middle node way (inner.trans (.of_mem_children (child member))) leads past

end UseQuery

end Dxl
