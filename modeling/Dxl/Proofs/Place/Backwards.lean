import Dxl.Proofs.Place.Ranges

/-! Backwards: the earlier nodes of a place are met as a walk through the whole tree meets them, from the last to the first. -/

namespace Dxl.Place

variable {place node child path outer top : Place}

/-- A node comes before a place if it starts earlier, right below something around the place. -/
structure ComesBefore (node place : Place) : Prop where
  beside : ∃ outer, Below place outer ∧ node ∈ outer.nodes
  earlier : node.start < place.start

/-- No element starts before one that comes earlier in the order of the tree. -/
theorem elements_pairwise (place : Place) :
    place.elements.Pairwise fun left right => left.start ≤ right.start := by
  induction place using induct with
  | step place ih =>
    rw [elements_eq, List.pairwise_cons, List.pairwise_flatMap]
    refine ⟨?_, ih, place.children_pairwise.imp ?_⟩
    · -- Everything else is below the first element.
      intro other member
      obtain ⟨child, inside, element⟩ := List.mem_flatMap.mp member
      have outer := range_of_mem_children inside
      have inner := (mem_elements_iff.mp element).range
      omega
    · -- What is within one child stops before what is within the next one starts.
      intro left right apart one oneMember other otherMember
      have first := (mem_elements_iff.mp oneMember).range
      have second := (mem_elements_iff.mp otherMember).range
      have bound := one.start_le_stop
      omega

/-- Nothing within something that starts no earlier than a place comes before the place. -/
theorem not_comesBefore_of_le (later : place.start ≤ child.start) (within : node.Within child) :
    ¬ node.ComesBefore place := by
  intro before
  have range := within.range
  have earlier := before.earlier
  omega

/-- What is right below something around a place comes before it just if it is a node that starts earlier. -/
theorem comesBefore_iff_of_mem_children (around : Below place outer) (member : node ∈ outer.children) :
    node.ComesBefore place ↔ node.isToken = false ∧ node.start < place.start := by
  constructor
  · intro before
    obtain ⟨other, -, isNode⟩ := before.beside
    exact ⟨by simpa using (List.mem_filter.mp isNode).2, before.earlier⟩
  · intro passes
    exact ⟨⟨outer, around, List.mem_filter.mpr ⟨member, by simp [passes.1]⟩⟩, passes.2⟩

/-- What lies below an earlier neighbour of the path to a place does not come before the place. -/
theorem not_comesBefore_of_below (member : child ∈ outer.children) (onPath : path ∈ outer.children)
    (within : place.Within path) (apart : child.stop ≤ path.start) (below : Below node child) :
    ¬ node.ComesBefore place := by
  intro before
  obtain ⟨parent, around, isNode⟩ := before.beside
  -- The parent of the node is not empty, for the place starts after the node.
  have inParent := range_of_mem_children (List.mem_filter.mp isNode).1
  have aroundPlace := Within.range (.inr around)
  have earlier := before.earlier
  have bound := place.start_le_stop
  -- It is within the neighbour, and so cannot be around the path.
  have inChild := below.within_of_mem_children (List.mem_filter.mp isNode).1
  have notOutside : ¬ outer.Within parent := fun outside =>
    not_below_self outer (outside.trans_below (inChild.trans_below (.child member)))
  have inPath : parent.Within path := by
    rcases within with rfl | further
    · exact absurd (around.within_of_mem_children onPath) notOutside
    · rcases around.within_or_below further with inside | outside
      · exact inside
      · exact absurd (outside.within_of_mem_children onPath) notOutside
  have first := inChild.range
  have second := inPath.range
  omega

open Classical in
/-- What comes before a place among others, in their order. -/
noncomputable def comingBefore (place : Place) (places : List Place) : List Place :=
  places.filter fun node => decide (node.ComesBefore place)

/-- What comes before a place among two rows of others is what does in each of them. -/
theorem comingBefore_append (place : Place) (left right : List Place) :
    place.comingBefore (left ++ right) = place.comingBefore left ++ place.comingBefore right :=
  List.filter_append ..

/-- What comes before a place among others is the first of them or nothing, and then what does among the rest. -/
theorem comingBefore_cons (place first : Place) (rest : List Place) :
    place.comingBefore (first :: rest) = place.comingBefore [first] ++ place.comingBefore rest :=
  comingBefore_append place [first] rest

/-- Nothing is left of places that do not come before another. -/
theorem comingBefore_eq_nil {places : List Place} (none : ∀ node ∈ places, ¬ node.ComesBefore place) :
    place.comingBefore places = [] := by
  rw [comingBefore, List.filter_eq_nil_iff]
  intro node member
  simpa using none node member

/-- Nothing is left of the elements of places within which nothing comes before another place. -/
theorem comingBefore_elements_eq_nil {places : List Place}
    (none : ∀ child ∈ places, ∀ node : Place, node.Within child → ¬ node.ComesBefore place) :
    place.comingBefore (places.flatMap elements) = [] := by
  apply comingBefore_eq_nil
  intro node member
  obtain ⟨child, inside, element⟩ := List.mem_flatMap.mp member
  exact none child inside node (mem_elements_iff.mp element)

/-- Nothing below a place comes before it. -/
theorem comingBefore_below_self (place : Place) :
    place.comingBefore (place.children.flatMap elements) = [] := by
  apply comingBefore_elements_eq_nil
  intro child member node within
  exact not_comesBefore_of_le (Nat.le_refl _) (within.trans (.of_mem_children member))

/-- Where nothing below some places comes before another, only these places do. -/
theorem comingBefore_elements {places : List Place}
    (none : ∀ child ∈ places, ∀ node, Below node child → ¬ node.ComesBefore place) :
    place.comingBefore (places.flatMap elements) = place.comingBefore places := by
  induction places with
  | nil => rfl
  | cons child rest ih =>
    have further := ih fun other member => none other (List.mem_cons_of_mem child member)
    have below : place.comingBefore (child.children.flatMap elements) = [] := by
      apply comingBefore_elements_eq_nil
      intro inner inside node within
      exact none child List.mem_cons_self node (within.trans_below (.child inside))
    -- The child stays or goes, and nothing below it stays.
    rw [List.flatMap_cons, comingBefore_append, further, elements_eq, comingBefore_cons, below,
      List.append_nil, ← comingBefore_cons]

/-- The nodes right below something around a place that start earlier are what comes before the place there. -/
theorem filter_nodes_eq (around : Below place outer) :
    outer.nodes.filter (fun node => node.start < place.start)
      = place.comingBefore outer.children := by
  rw [nodes, List.filter_filter]
  refine List.filter_congr fun node member => ?_
  simp [comesBefore_iff_of_mem_children around member, and_comm]

/-- Below something around a place, what comes before it are the earlier nodes right below, and then what comes before it on the path to it. -/
theorem comingBefore_below_eq (around : Below place outer) (onPath : path ∈ outer.children)
    (within : place.Within path) :
    place.comingBefore (outer.children.flatMap elements)
      = outer.nodes.filter (fun node => node.start < place.start)
        ++ place.comingBefore (path.children.flatMap elements) := by
  obtain ⟨left, right, split⟩ := List.append_of_mem onPath
  have ordered := outer.children_pairwise
  rw [split] at ordered
  obtain ⟨-, after, before⟩ := List.pairwise_append.mp ordered
  -- Of the neighbours on the left, nothing further down comes before the place.
  have lefts : place.comingBefore (left.flatMap elements) = place.comingBefore left := by
    apply comingBefore_elements
    intro child member node below
    exact not_comesBefore_of_below (by simp [split, member]) onPath within
      (before child member path List.mem_cons_self) below
  -- Those on the right start no earlier than the place.
  have later : ∀ child ∈ right, place.start ≤ child.start := by
    intro child member
    have apart := List.rel_of_pairwise_cons after member
    have range := within.range
    have bound := place.start_le_stop
    omega
  have rights : place.comingBefore (right.flatMap elements) = [] := by
    apply comingBefore_elements_eq_nil
    intro child member node inside
    exact not_comesBefore_of_le (later child member) inside
  have none : place.comingBefore right = [] := by
    apply comingBefore_eq_nil
    intro child member
    exact not_comesBefore_of_le (later child member) (.refl child)
  calc place.comingBefore (outer.children.flatMap elements)
      = place.comingBefore left ++ (place.comingBefore [path]
          ++ place.comingBefore (path.children.flatMap elements)) := by
        rw [split, List.flatMap_append, List.flatMap_cons, comingBefore_append,
          comingBefore_append, lefts, rights, List.append_nil, elements_eq path, comingBefore_cons]
    _ = outer.nodes.filter (fun node => node.start < place.start)
          ++ place.comingBefore (path.children.flatMap elements) := by
        rw [filter_nodes_eq around, split, comingBefore_append, comingBefore_cons place path right,
          none, List.append_nil, List.append_assoc]

/-- What comes before a place below something around it, and the earlier nodes right below whatever is above that, are the earlier nodes of the place. -/
theorem previous_eq_of_below (around : Below place outer) :
    place.previous
      = (place.comingBefore (outer.children.flatMap elements)).reverse
        ++ outer.ancestors.flatMap fun ancestor =>
          (ancestor.nodes.filter (fun node => node.start < place.start)).reverse := by
  -- Going down to the place, each step takes one more ancestor into account.
  induction outer using induct with
  | step outer ih =>
    obtain ⟨path, onPath, within⟩ := around.exists_child
    rw [comingBefore_below_eq around onPath within, List.reverse_append, List.append_assoc]
    rcases within with rfl | below
    · rw [comingBefore_below_self, previous, ancestors_of_mem_children onPath]
      rfl
    · rw [ih path onPath below, ancestors_of_mem_children onPath]
      rfl

/-- The earlier nodes of a place are what comes before it in the order of the tree, from the last to the first. -/
theorem previous_eq (topmost : top.above = []) (inside : place.Within top) :
    place.previous = (place.comingBefore top.elements).reverse := by
  -- The top is not right below anything.
  have notTop : place.comingBefore [top] = [] := by
    apply comingBefore_eq_nil
    intro node member before
    rw [List.mem_singleton.mp member] at before
    obtain ⟨outer, -, isNode⟩ := before.beside
    have above := above_of_mem_row (List.mem_filter.mp isNode).1
    rw [topmost] at above
    cases above
  rw [elements_eq, comingBefore_cons, notTop, List.nil_append]
  rcases inside with rfl | below
  · -- Nothing is above the top.
    rw [comingBefore_below_self, previous, ancestors, topmost]
    rfl
  · rw [previous_eq_of_below below, ancestors, topmost]
    exact List.append_nil _

/-- The members that pass a test have increasing numbers in their list. -/
theorem exists_numbers {α : Type} (test : α → Bool) (list : List α) :
    ∃ numbers : List Nat, numbers.Pairwise (· < ·)
      ∧ numbers.map (list[·]?) = (list.filter test).map some
      ∧ ∀ number item, list[number]? = some item → (number ∈ numbers ↔ test item = true) := by
  induction list with
  | nil => exact ⟨[], .nil, rfl, by simp⟩
  | cons first rest ih =>
    obtain ⟨numbers, increasing, same, exactly⟩ := ih
    -- The numbers of the others grow by one, and the first member has the number zero.
    have shifted : (numbers.map (· + 1)).map ((first :: rest)[·]?) = (rest.filter test).map some := by
      rw [List.map_map, ← same]
      rfl
    have ordered : (numbers.map (· + 1)).Pairwise (· < ·) := by
      rw [List.pairwise_map]
      exact increasing.imp fun before => Nat.succ_lt_succ before
    cases passes : test first with
    | true =>
      refine ⟨0 :: numbers.map (· + 1), .cons (by simp) ordered, ?_, ?_⟩
      · rw [List.filter_cons_of_pos passes, List.map_cons, List.map_cons, shifted]
        rfl
      · intro number item found
        cases number with
        | zero =>
          obtain rfl := Option.some.inj found
          simp [passes]
        | succ number => simpa using exactly number item found
    | false =>
      refine ⟨numbers.map (· + 1), ordered, ?_, ?_⟩
      · rw [List.filter_cons_of_neg (by simp [passes]), shifted]
      · intro number item found
        cases number with
        | zero =>
          obtain rfl := Option.some.inj found
          simp [passes]
        | succ number => simpa using exactly number item found

/-- Within a tree, the earlier nodes of a place are met backwards. Their numbers in the order of the tree decrease, and are those of all nodes right below something around the place that start before it; so none of them starts before one that is met later, and neither the place nor anything below it is among them. -/
theorem previous_backwards (tree : Tree) (base : Nat) (member : place ∈ (root tree base).elements) :
    ∃ numbers : List Nat, numbers.Pairwise (· > ·)
      ∧ numbers.map ((root tree base).elements[·]?) = place.previous.map some
      ∧ (∀ number node, (root tree base).elements[number]? = some node →
        (number ∈ numbers ↔ node.ComesBefore place))
      ∧ place.previous.Pairwise (fun near far => far.start ≤ near.start)
      ∧ ∀ node ∈ place.previous, node.start < place.start ∧ ¬ node.Within place := by
  -- Backwards, the earlier nodes are those that come before the place in the order of the tree.
  have backwards : place.previous = (place.comingBefore (root tree base).elements).reverse :=
    previous_eq rfl (mem_elements_iff.mp member)
  classical
  obtain ⟨numbers, increasing, same, exactly⟩ :=
    exists_numbers (fun node : Place => decide (node.ComesBefore place)) (root tree base).elements
  refine ⟨numbers.reverse, List.pairwise_reverse.mpr increasing, ?_, ?_, ?_, ?_⟩
  · rw [backwards, List.map_reverse, List.map_reverse, same]
    rfl
  · intro number node found
    rw [List.mem_reverse, exactly number node found, decide_eq_true_eq]
  · rw [backwards, List.pairwise_reverse]
    exact (elements_pairwise _).filter _
  · intro node inside
    rw [backwards, List.mem_reverse, comingBefore, List.mem_filter, decide_eq_true_eq] at inside
    have earlier := inside.2.earlier
    refine ⟨earlier, fun within => ?_⟩
    have range := within.range
    omega

/-- Two equal empty nodes are both met, and an empty node that starts where the place does is not. -/
theorem previous_backwards_empty :
    let tree : Tree := .node (.node .root) [.node (.node .block) [], .node (.node .block) [],
      .leaf (.token .name) "x", .node (.node .exprStmt) [.node (.node .nameRef) [.leaf (.token .name) "y"],
        .node (.node .argList) [], .node (.node .literal) [.leaf (.token .integer) "1"]]]
    ∃ place ∈ (root tree 3).elements, place.kind = .node .literal
      ∧ place.previous.map (fun node => (node.kind, node.start))
        = [(.node .nameRef, 4), (.node .exprStmt, 4), (.node .block, 3), (.node .block, 3)]
      ∧ ∃ numbers : List Nat, numbers.Pairwise (· > ·)
        ∧ numbers.map ((root tree 3).elements[·]?) = place.previous.map some := by
  intro tree
  have member := List.mem_of_getElem? (l := (root tree 3).elements) (i := 8) rfl
  obtain ⟨numbers, decreasing, same, -⟩ := previous_backwards tree 3 member
  exact ⟨_, member, rfl, rfl, numbers, decreasing, same⟩

end Dxl.Place
