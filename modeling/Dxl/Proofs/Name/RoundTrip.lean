import Dxl.Proofs.Name.Searching

/-! Round trips: when a reference is among the uses that are listed for its own definition. -/

namespace Dxl.Place

variable {top outer node path reference holder source definition origin token other : Place}
  {name : String} {level : Nat} {uses : List Place}

/-- Whether a name opens a declaration of itself that is nested more deeply than a level, because nothing stands before it there. -/
def opensDeeper (level : Nat) (token : Place) : Bool :=
  token.parent?.any fun reference => reference.ancestors.any fun node =>
    node.start == reference.start
      && (node.declares? token.text).any fun other => level < other.level

/-- A name opens a deeper declaration just if a node around it starts with it and declares it deeper. -/
theorem opensDeeper_iff (rooted : top.Rooted) (inside : Below reference top)
    (refers : reference.use? name = some token) :
    token.opensDeeper level = true ↔ ∃ node other, Below reference node
      ∧ node.start = reference.start ∧ node.declares? name = some other ∧ level < other.level := by
  rw [opensDeeper, (parent?_of_use? refers).1, (use?_eq_some_iff.mp refers).2.2]
  simp only [Option.any_some, List.any_eq_true, mem_ancestors_iff rooted.topmost (.inr inside),
    Bool.and_eq_true, beq_iff_eq, Option.any_eq_true, decide_eq_true_eq]
  constructor
  · rintro ⟨node, below, starts, other, declares, deeper⟩
    exact ⟨node, other, below, starts, declares, deeper⟩
  · rintro ⟨node, other, below, starts, declares, deeper⟩
    exact ⟨node, below, starts, other, declares, deeper⟩

/-- A name within a name is that name. -/
theorem eq_of_within_name (proper : holder.Proper) (names : holder.isNameRef = true)
    (composite : reference.tree.isLeaf = false) (within : reference.Within holder) :
    reference = holder := by
  obtain ⟨kind, isNode, -, atom⟩ := exists_kind_of_isNameRef names
  exact proper.eq_of_within_atom isNode atom within composite

/-- A reference that shares a definition does not come before it. -/
theorem Shares.start_le (rooted : top.Rooted) (inside : Below holder top)
    (holds : holder.use? name = some definition) (referenceInside : Below reference top)
    (refers : reference.use? name = some token) (shares : Shares name holder reference) :
    definition.start ≤ token.start := by
  have holderProper := rooted.proper.of_within (.inr inside)
  have referenceProper := rooted.proper.of_within (.inr referenceInside)
  have holderNames := (use?_eq_some_iff.mp holds).1
  have referenceNames := (use?_eq_some_iff.mp refers).1
  have holderRange := stop_of_use? holderProper holds
  have referenceRange := stop_of_use? referenceProper refers
  have ends : holder.start < reference.stop := shares.ends
  -- Names hold no names: the two are apart, or one and the same.
  rcases apartOrNested (.inr inside) (.inr referenceInside) with before | after | inner | around
  · omega
  · omega
  · cases eq_of_within_name referenceProper referenceNames
      (isLeaf_of_isNameRef holderProper holderNames) inner
    exact Nat.le_of_eq (congrArg start (Option.some.inj (holds.symm.trans refers)))
  · cases eq_of_within_name holderProper holderNames
      (isLeaf_of_isNameRef referenceProper referenceNames) around
    exact Nat.le_of_eq (congrArg start (Option.some.inj (holds.symm.trans refers)))

/-- A node around a place that declares a name leads to the place. -/
theorem exists_leads_of_declares (rooted : top.Rooted) (inside : Below reference top)
    (below : Below reference node) (declares : node.declares? name = some other) :
    ∃ outer, Leads outer node node reference := by
  obtain ⟨kind, isNode, declaring⟩ := exists_kind_of_declares declares
  have within := within_of_below rooted.topmost inside below
  obtain ⟨children, same⟩ := (rooted.proper.of_within within).exists_children isNode
  rcases within with rfl | further
  · -- The root declares nothing.
    rw [rooted.isRoot] at isNode
    cases isNode
    cases declaring
  · obtain ⟨outer, member⟩ := further.exists_parent (by rw [same]; rfl)
    exact ⟨outer, .refl member (.inr below)⟩

/-- No node around a reference that shares a definition declares the name deeper than the definition. -/
theorem Shares.level_le_of_below (rooted : top.Rooted) (inside : Below holder top)
    (names : holder.isNameRef = true) (referenceInside : Below reference top)
    (shares : Shares name holder reference) (below : Below reference node)
    (declares : node.declares? name = some other) : other.level ≤ holder.level := by
  obtain ⟨outer, leads⟩ := exists_leads_of_declares rooted referenceInside below declares
  exact shares.level_le rooted inside names leads declares

/-- A token that a node declares is nested as deeply as the insides of the node. -/
theorem level_of_declares (declares : node.declares? name = some token) :
    token.level = node.innerLevel := by
  obtain ⟨holder, introduces, uses⟩ := exists_introduces declares
  rw [(parent?_of_use? uses).2.1, introduces.level]

/-- If a reference shares what its definition resolves to, no node around the definition declares the name deeper than that. -/
theorem Shares.level_le_of_below_holder (rooted : top.Rooted) (inside : Below source top)
    (names : source.isNameRef = true) (referenceInside : Below reference top)
    (referenceNames : reference.isNameRef = true) (shares : Shares name source reference)
    (resolves : Resolves name reference definition) (holds : holder.use? name = some definition)
    (below : Below holder node) (declares : node.declares? name = some other) :
    other.level ≤ source.level := by
  have composite :=
    isLeaf_of_isNameRef (rooted.proper.of_within (.inr referenceInside)) referenceNames
  cases resolves with
  | declared member declaresHolder held uses _ =>
    -- The declaration of the definition is no deeper, and the node is around its name.
    cases eq_of_use? uses holds
    obtain ⟨-, outer, path, leads⟩ :=
      (mem_previous_iff rooted.topmost (.inr referenceInside) composite).mp member
    have bound := shares.level_le rooted inside names leads declaresHolder
    have := below.innerLevel_le
    rw [level_of_declares declares]
    rw [(parent?_of_use? holds).2.1] at bound
    omega
  | @assigned statement _ member _ held uses _ =>
    cases eq_of_use? uses holds
    obtain ⟨-, outer, path, leads⟩ :=
      (mem_previous_iff rooted.topmost (.inr referenceInside) composite).mp member
    -- Neither the statement nor the assignment declares anything, so the node is around the place.
    have plain : ∀ {kind : NodeKind}, node.kind = .node kind →
        (kind.isDeclaration || kind == .paramList) = true := fun isNode => by
      obtain ⟨kind, same, declaring⟩ := exists_kind_of_declares declares
      rw [isNode] at same
      cases same
      exact declaring
    have around : Below reference node := by
      obtain ⟨isNode, inNode, isAssignment, leading⟩ := held
      have inAssignment := (List.mem_filter.mp (leadingName?_eq_some leading).1).1
      rcases below.within_of_mem_children inAssignment with rfl | further
      · exact absurd (plain isAssignment) (by decide)
      · rcases further.within_of_mem_children (List.mem_filter.mp inNode).1 with rfl | further
        · exact absurd (plain isNode) (by decide)
        · exact Within.below leads.below
            (further.within_of_mem_children (List.mem_filter.mp leads.member).1)
    exact shares.level_le_of_below rooted inside names referenceInside around declares

/-- No earlier node declares the name of a reference deeper than its definition. -/
theorem Resolves.level_le_own (rooted : top.Rooted) (referenceInside : Below reference top)
    (referenceNames : reference.isNameRef = true) (resolves : Resolves name reference definition)
    (earlier : node ∈ reference.previous) (declares : node.declares? name = some other) :
    other.level ≤ definition.level := by
  obtain ⟨holder, inside, holds⟩ := resolves.exists_holder rooted referenceInside referenceNames
  cases resolves with
  | assigned _ _ _ _ undeclared => simp [undeclared node earlier] at declares
  | declared _ _ held uses nearest =>
    cases eq_of_use? uses holds
    -- The node leads to the declaration, and so to the name that it introduces.
    obtain ⟨outer, path, leads⟩ := nearest node earlier (by simp [declares])
    rw [(parent?_of_use? holds).2.1]
    exact level_le_of_leads rooted inside (use?_eq_some_iff.mp holds).1
      (leads.of_within (.inr held.below)) declares

/-- If the definition of a reference opens nothing deeper than what it resolves to itself, then no earlier node declares the name deeper than that. -/
theorem Resolves.level_le_of_previous (rooted : top.Rooted) (referenceInside : Below reference top)
    (referenceNames : reference.isNameRef = true) (resolves : Resolves name reference definition)
    (holds : holder.use? name = some definition) (further : Resolves name holder origin)
    (shallow : definition.opensDeeper origin.level = false) (earlier : node ∈ reference.previous)
    (declares : node.declares? name = some other) : other.level ≤ origin.level := by
  have bound := resolves.level_le_own rooted referenceInside referenceNames earlier declares
  obtain ⟨_, inside, same⟩ := resolves.exists_holder rooted referenceInside referenceNames
  cases eq_of_use? same holds
  have names := (use?_eq_some_iff.mp holds).1
  have composite := isLeaf_of_isNameRef (rooted.proper.of_within (.inr inside)) names
  cases resolves with
  | assigned _ _ _ _ undeclared => simp [undeclared node earlier] at declares
  | @declared declaration _ member declaresHolder held uses nearest =>
    cases eq_of_use? uses holds
    refine Nat.le_trans bound ?_
    refine Nat.le_of_not_lt fun deeper => ?_
    have range := Within.range (.inr held.below)
    rcases Nat.eq_or_lt_of_le range.1 with starts | before
    · -- The definition would open its declaration.
      rw [(opensDeeper_iff rooted inside holds).mpr
        ⟨declaration, definition, held.below, starts, declaresHolder, deeper⟩] at shallow
      cases shallow
    · -- The declaration leads to what the definition resolves to.
      obtain ⟨around, leadsHolder⟩ :=
        exists_leads_of_declares rooted inside held.below declaresHolder
      have inPrevious := (mem_previous_iff rooted.topmost (.inr inside) composite).mpr
        ⟨before, around, declaration, leadsHolder⟩
      have := further.level_le_own rooted inside names inPrevious declaresHolder
      omega

/-- A reference that shares a definition does not come before it, opens no deeper declaration, and is inside of a parameter that the definition names as a function. -/
theorem Shares.spec (rooted : top.Rooted) (inside : Below holder top)
    (holds : holder.use? name = some definition) (referenceInside : Below reference top)
    (refers : reference.use? name = some token) (shares : Shares name holder reference) :
    definition.start ≤ token.start ∧ token.opensDeeper definition.level = false
      ∧ ∀ parameter, definition.functionParameter? = some parameter → Below reference parameter := by
  have names := (use?_eq_some_iff.mp holds).1
  have level := (parent?_of_use? holds).2.1
  refine ⟨shares.start_le rooted inside holds referenceInside refers, ?_, ?_⟩
  · -- A deeper declaration around the reference would hide the definition from it.
    rw [Bool.eq_false_iff, Ne, opensDeeper_iff rooted referenceInside refers]
    rintro ⟨node, other, below, -, declares, deeper⟩
    have := shares.level_le_of_below rooted inside names referenceInside below declares
    omega
  · intro parameter found
    rw [← searched_of_functionParameter? holds found]
    exact shares.below

/-- A reference where a definition is searched shares it if it does not come before the definition and neither it nor anything earlier declares the name deeper. -/
theorem Shares.of_shallow (rooted : top.Rooted) (inside : Below holder top)
    (holds : holder.use? name = some definition) (referenceInside : Below reference top)
    (refers : reference.use? name = some token) (around : Below reference holder.searched)
    (starts : definition.start ≤ token.start) (shallow : token.opensDeeper definition.level = false)
    (bounded : ∀ node ∈ reference.previous, ∀ other, node.declares? name = some other →
      other.level ≤ definition.level) : Shares name holder reference := by
  have names := (use?_eq_some_iff.mp refers).1
  have level := (parent?_of_use? holds).2.1
  have proper := rooted.proper.of_within (.inr referenceInside)
  have holderRange := stop_of_use? (rooted.proper.of_within (.inr inside)) holds
  have referenceRange := stop_of_use? proper refers
  refine ⟨around, by simp only; omega, ?_⟩
  -- What hides the definition begins before the reference or together with it.
  intro middle node path within leads reaches
  rw [Bool.eq_false_iff]
  intro hidden
  obtain ⟨other, declares, deeper⟩ := UseQuery.exists_of_isHiddenBy hidden
  simp only at declares deeper
  rcases Nat.lt_or_ge node.start reference.start with earlier | begins
  · have inPrevious := (mem_previous_iff rooted.topmost (.inr referenceInside)
      (isLeaf_of_isNameRef proper names)).mpr ⟨earlier, middle, path, leads⟩
    have := bounded node inPrevious other declares
    omega
  · -- The node starts with the reference, so the reference opens it.
    have nonempty := start_lt_stop_of_declares (rooted.proper.of_within
      (.inr (leads.inside rooted.topmost referenceInside))) declares
    have starting := leads.start_le
    have range := leads.within.range
    rcases leads.first with rfl | before
    · have around : Below reference node := by
        rcases leads.within with rfl | below
        · simp [declares?_eq_none_of_isNameRef names] at declares
        · exact below
      rw [(opensDeeper_iff rooted referenceInside refers).mpr
        ⟨node, other, around, by omega, declares, by omega⟩] at shallow
      cases shallow
    · omega

/-- A reference shares what its definition resolves to just if it does not come before that, neither the definition nor the reference opens a deeper declaration, and a parameter that is a function is around the reference. -/
theorem shares_iff (rooted : top.Rooted) (referenceInside : Below reference top)
    (refers : reference.use? name = some token) (resolves : Resolves name reference definition)
    (holds : holder.use? name = some definition) (further : Resolves name holder origin)
    (sourceUses : source.use? name = some origin) :
    Shares name source reference ↔ origin.start ≤ token.start
      ∧ definition.opensDeeper origin.level = false ∧ token.opensDeeper origin.level = false
      ∧ ∀ parameter, origin.functionParameter? = some parameter → Below reference parameter := by
  have referenceNames := (use?_eq_some_iff.mp refers).1
  have names := (use?_eq_some_iff.mp holds).1
  have sourceNames := (use?_eq_some_iff.mp sourceUses).1
  obtain ⟨_, inside, same⟩ := resolves.exists_holder rooted referenceInside referenceNames
  cases eq_of_use? same holds
  obtain ⟨_, sourceInside, sameSource⟩ := further.exists_holder rooted inside names
  cases eq_of_use? sameSource sourceUses
  constructor
  · intro shares
    obtain ⟨starts, shallow, confined⟩ :=
      shares.spec rooted sourceInside sourceUses referenceInside refers
    refine ⟨starts, ?_, shallow, confined⟩
    -- A deeper declaration around the holder would hide the origin from the reference.
    rw [Bool.eq_false_iff, Ne, opensDeeper_iff rooted inside holds]
    rintro ⟨node, other, below, -, declares, deeper⟩
    have := shares.level_le_of_below_holder rooted sourceInside sourceNames referenceInside
      referenceNames resolves holds below declares
    rw [(parent?_of_use? sourceUses).2.1] at deeper
    omega
  · rintro ⟨starts, shallowDefinition, shallow, confined⟩
    have around : Below reference source.searched := by
      rcases resolves.below_searched rooted referenceInside referenceNames holds further
        sourceUses with below | ⟨parameter, found, same⟩
      · exact below
      · exact same ▸ confined parameter found
    exact .of_shallow rooted sourceInside sourceUses referenceInside refers around starts shallow
      fun node earlier other declares => resolves.level_le_of_previous rooted referenceInside
        referenceNames holds further shallowDefinition earlier declares

/-- A reference shares its own definition just if it does not come before the definition, opens no deeper declaration, and is inside of a parameter that the definition names as a function. -/
theorem shares_own_iff (rooted : top.Rooted) (referenceInside : Below reference top)
    (refers : reference.use? name = some token) (resolves : Resolves name reference definition)
    (holds : holder.use? name = some definition) :
    Shares name holder reference ↔ definition.start ≤ token.start
      ∧ token.opensDeeper definition.level = false
      ∧ ∀ parameter, definition.functionParameter? = some parameter → Below reference parameter := by
  have names := (use?_eq_some_iff.mp refers).1
  obtain ⟨_, inside, same⟩ := resolves.exists_holder rooted referenceInside names
  cases eq_of_use? same holds
  constructor
  · exact Shares.spec rooted inside holds referenceInside refers
  · rintro ⟨starts, shallow, confined⟩
    -- What is searched for a definition surrounds what resolves to it, except that for a function
    -- which is a parameter only that parameter is searched.
    have around : Below reference holder.searched := by
      rcases resolves.below_own_searched rooted referenceInside names holds with
        below | ⟨parameter, found, same⟩
      · exact below
      · exact same ▸ confined parameter found
    exact .of_shallow rooted inside holds referenceInside refers around starts shallow
      fun node earlier other declares =>
        resolves.level_le_own rooted referenceInside names earlier declares

/-- What is listed for a definition holds a reference to the name just if the reference shares the definition. -/
theorem mem_below_searched_iff_shares (rooted : top.Rooted) (inside : Below holder top)
    (refers : reference.use? name = some token) :
    token ∈ UseQuery.below ⟨name, holder.start, holder.level⟩ holder.searched
      ↔ Shares name holder reference := by
  rw [mem_below_searched_iff rooted inside]
  constructor
  · rintro ⟨other, same, shares⟩
    cases eq_of_use? same refers
    exact shares
  · exact fun shares => ⟨reference, refers, shares⟩

/-- A reference is among the uses listed for its own definition just if the definition resolves to something which does not come after the reference, than which neither of the two opens a deeper declaration, and which is no function that is a parameter elsewhere. -/
theorem mem_referencesAt?_iff (rooted : top.Rooted) (inside : Below reference top)
    (refers : reference.use? name = some token)
    (defined : top.definitionAt? token.stop = some definition) :
    (∃ uses, top.referencesAt? definition.stop = some uses ∧ token ∈ uses)
      ↔ ∃ origin, top.definitionAt? definition.stop = some origin ∧ origin.start ≤ token.start
        ∧ definition.opensDeeper origin.level = false ∧ token.opensDeeper origin.level = false
        ∧ ∀ parameter, origin.functionParameter? = some parameter → Below reference parameter := by
  have names := (use?_eq_some_iff.mp refers).1
  rw [definitionAt?_stop rooted inside refers] at defined
  have resolves := resolves_of_definitionOf? rooted inside names defined
  obtain ⟨holder, holderInside, holds⟩ := resolves.exists_holder rooted inside names
  have holderNames := (use?_eq_some_iff.mp holds).1
  cases found : top.definitionAt? definition.stop with
  | none => simp [referencesAt?, found]
  | some origin =>
    -- The definition is itself a reference, which resolves once more: its origin is what the uses
    -- are listed for.
    have further := resolves_of_definitionOf? rooted holderInside holderNames
      (definitionAt?_stop rooted holderInside holds ▸ found)
    obtain ⟨source, sourceInside, sourceUses⟩ := further.exists_holder rooted holderInside holderNames
    rw [referencesAt?_eq found sourceUses]
    simp only [Option.some.injEq, exists_eq_left',
      mem_below_searched_iff_shares rooted sourceInside refers]
    exact shares_iff rooted inside refers resolves holds further sourceUses

/-- A reference is among the uses listed at its own end just if its definition does not come after it, it opens no deeper declaration, and it is inside of a parameter that the definition names as a function. -/
theorem mem_referencesAt?_stop_iff (rooted : top.Rooted) (inside : Below reference top)
    (refers : reference.use? name = some token)
    (defined : top.definitionAt? token.stop = some definition) :
    (∃ uses, top.referencesAt? token.stop = some uses ∧ token ∈ uses)
      ↔ definition.start ≤ token.start ∧ token.opensDeeper definition.level = false
        ∧ ∀ parameter, definition.functionParameter? = some parameter →
            Below reference parameter := by
  have names := (use?_eq_some_iff.mp refers).1
  have defines := definitionAt?_stop rooted inside refers ▸ defined
  have resolves := resolves_of_definitionOf? rooted inside names defines
  obtain ⟨holder, holderInside, holds⟩ := resolves.exists_holder rooted inside names
  rw [referencesAt?_eq defined holds]
  simp only [Option.some.injEq, exists_eq_left',
    mem_below_searched_iff_shares rooted holderInside refers]
  exact shares_own_iff rooted inside refers resolves holds

end Dxl.Place
