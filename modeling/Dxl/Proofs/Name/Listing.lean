import Dxl.Proofs.Name.RoundTrip

/-! Listings: the uses of a definition come in the order of the source text, and the definition itself comes first. -/

namespace Dxl

namespace UseQuery

open Place

variable {query : UseQuery} {node outer token top : Place}

/-- Nothing is listed below a node that is itself a use. -/
theorem below_eq_nil (proper : node.Proper) (uses : node.use? query.name = some token) :
    query.below node = [] := by
  -- A name holds a single token and no nodes.
  obtain ⟨kind, isNode, -, atom⟩ := exists_kind_of_isNameRef (use?_eq_some_iff.mp uses).1
  rw [below_eq, proper.nodes_eq_nil isNode atom]
  rfl

/-- What is listed of a node begins inside of the node. -/
theorem range_of_mem (rooted : top.Rooted) (inside : Below node top) (positive : 0 < query.level)
    (member : token ∈ (node.use? query.name).toList ++ query.below node) :
    node.start ≤ token.start ∧ token.start < node.stop := by
  rcases List.mem_append.mp member with own | further
  · -- The node is itself a use, and its token ends where it ends.
    have uses : node.use? query.name = some token := by simpa using own
    have range := stop_of_use? (rooted.proper.of_within (.inr inside)) uses
    omega
  · -- The walk reaches a reference below the node.
    obtain ⟨reference, uses, reaches⟩ := (mem_below_iff rooted (.inr inside) positive).mp further
    have referenceInside : Below reference top := reaches.below.trans inside
    have outside := Within.range (.inr reaches.below)
    have range := stop_of_use? (rooted.proper.of_within (.inr referenceInside)) uses
    omega

/-- The uses listed below a place come in the order of the source text, none of them twice. -/
theorem below_pairwise (rooted : top.Rooted) (within : outer.Within top)
    (positive : 0 < query.level) :
    (query.below outer).Pairwise fun left right => left.start < right.start := by
  -- The walk goes down one child at a time.
  induction outer using Place.induct with
  | step outer ih =>
    have inNodes : ∀ {node : Place},
        node ∈ (outer.nodes.filter (query.offset < ·.stop)).takeWhile (!query.isHiddenBy ·) →
        node ∈ outer.nodes := fun member =>
      List.mem_of_mem_filter ((List.takeWhile_sublist _).subset member)
    have inside : ∀ {node : Place}, node ∈ outer.nodes → Below node top := fun member =>
      Within.below (below_of_mem_nodes member) within
    rw [below_eq_flatMap rooted within positive, List.pairwise_flatMap]
    constructor
    · intro node visited
      have member := inNodes visited
      cases uses : node.use? query.name with
      | none => exact ih node (List.mem_filter.mp member).1 (.inr (inside member))
      | some token =>
        rw [below_eq_nil (rooted.proper.of_within (.inr (inside member))) uses]
        exact List.pairwise_singleton _ _
    · -- What is listed of a node ends before the next node begins.
      have ordered := (outer.nodes_pairwise.filter (query.offset < ·.stop)).sublist
        (List.takeWhile_sublist (!query.isHiddenBy ·))
      apply ordered.imp_of_mem
      intro left right leftVisited rightVisited before one first other second
      have := range_of_mem rooted (inside (inNodes leftVisited)) positive first
      have := range_of_mem rooted (inside (inNodes rightVisited)) positive second
      omega

end UseQuery

namespace Place

variable {top holder definition token : Place} {name : String} {offset : Nat} {uses : List Place}

/-- A definition is one of the references that share it. -/
theorem Shares.refl (rooted : top.Rooted) (inside : Below holder top)
    (names : holder.isNameRef = true) : Shares name holder holder where
  below := (searched_spec rooted inside).1
  ends := start_lt_stop_of_isNameRef (rooted.proper.of_within (.inr inside)) names
  visible := by
    intro middle node path _ leads _
    -- Whatever leads to the name declares no deeper than the name is nested.
    apply Bool.eq_false_iff.mpr
    intro hidden
    obtain ⟨other, declares, deeper⟩ := UseQuery.exists_of_isHiddenBy hidden
    have shallow := level_le_of_leads rooted inside names leads declares
    exact absurd shallow (Nat.not_le.mpr deeper)

/-- In a list in the order of the source text, a member that nothing starts before is the first. -/
theorem exists_eq_cons (ordered : uses.Pairwise fun left right => left.start < right.start)
    (member : definition ∈ uses) (least : ∀ token ∈ uses, definition.start ≤ token.start) :
    ∃ rest, uses = definition :: rest := by
  cases ordered with
  | nil => cases member
  | @cons first rest before _ =>
    rcases List.mem_cons.mp member with rfl | later
    · exact ⟨rest, rfl⟩
    · -- The first of the list would start before the member.
      have := before definition later
      have := least first (by simp)
      omega

/-- The uses that are listed at an offset come in the order of the source text, begin with the definition there, and are names with its text. -/
theorem referencesAt?_ordered (rooted : top.Rooted)
    (listed : top.referencesAt? offset = some uses) :
    ∃ definition rest, top.definitionAt? offset = some definition ∧ uses = definition :: rest
      ∧ uses.Pairwise (fun left right => left.start < right.start)
      ∧ ∀ token ∈ uses, ∃ reference, Below reference top
          ∧ reference.use? definition.text = some token := by
  obtain ⟨definition, defined, -⟩ := Option.bind_eq_some_iff.mp listed
  obtain ⟨place, name, placeInside, placeNames, defines⟩ :=
    exists_reference_of_definitionAt? rooted defined
  have resolves := resolves_of_definitionOf? rooted placeInside placeNames defines
  obtain ⟨holder, inside, holds⟩ := resolves.exists_holder rooted placeInside placeNames
  obtain ⟨names, -, text⟩ := use?_eq_some_iff.mp holds
  -- The list is that of the walk from the definition.
  obtain rfl := Option.some.inj ((referencesAt?_eq defined holds).symm.trans listed)
  have ordered : (UseQuery.below ⟨name, holder.start, holder.level⟩ holder.searched).Pairwise
      fun left right => left.start < right.start :=
    UseQuery.below_pairwise rooted (searched_spec rooted inside).2 (level_pos rooted inside)
  have own := (mem_below_searched_iff rooted inside).mpr
    ⟨holder, holds, Shares.refl rooted inside names⟩
  have found : ∀ token ∈ UseQuery.below ⟨name, holder.start, holder.level⟩ holder.searched,
      ∃ reference, Below reference top ∧ reference.use? name = some token
        ∧ definition.start ≤ token.start := by
    intro token member
    obtain ⟨reference, refers, shares⟩ := (mem_below_searched_iff rooted inside).mp member
    have referenceInside : Below reference top :=
      Within.below shares.below (searched_spec rooted inside).2
    exact ⟨reference, referenceInside, refers,
      shares.start_le rooted inside holds referenceInside refers⟩
  have least : ∀ token ∈ UseQuery.below ⟨name, holder.start, holder.level⟩ holder.searched,
      definition.start ≤ token.start := by
    intro token member
    obtain ⟨reference, -, -, starts⟩ := found token member
    exact starts
  obtain ⟨rest, split⟩ := exists_eq_cons ordered own least
  refine ⟨definition, rest, defined, split, ordered, ?_⟩
  intro token member
  obtain ⟨reference, referenceInside, refers, -⟩ := found token member
  exact ⟨reference, referenceInside, text ▸ refers⟩

end Place

end Dxl
