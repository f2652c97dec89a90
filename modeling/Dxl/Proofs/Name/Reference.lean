import Dxl.Proofs.Name.Definition
import Dxl.Proofs.Name.Walk

/-! References: which uses are listed for a definition, and which of them refer to it. -/

namespace Dxl.Place

variable {top outer node path place reference holder definition token other : Place}
  {name : String} {offset : Nat} {uses : List Place}

/-- The references that share a definition are those of its name which the walk reaches from the definition. -/
def Shares (name : String) (holder reference : Place) : Prop :=
  UseQuery.Reaches ⟨name, holder.start, holder.level⟩ holder.searched reference

/-- A name below the root is nested in at least one level. -/
theorem level_pos (rooted : top.Rooted) (inside : Below place top) : 0 < place.level := by
  have outermost := inside.innerLevel_le
  rw [innerLevel_eq rooted.isRoot] at outermost
  exact Nat.lt_of_lt_of_le (Nat.succ_pos _) outermost

/-- A name lies below the node in which its uses are searched, which is in the tree. -/
theorem searched_spec (rooted : top.Rooted) (inside : Below place top) :
    Below place place.searched ∧ place.searched.Within top := by
  have below := below_searched rooted
    (within_of_below rooted.topmost inside (below_scope rooted inside)) (below_scope rooted inside)
  exact ⟨below, within_of_below rooted.topmost inside below⟩

/-- The listed uses of a definition are those that share it. -/
theorem mem_below_searched_iff (rooted : top.Rooted) (inside : Below holder top) :
    token ∈ UseQuery.below ⟨name, holder.start, holder.level⟩ holder.searched
      ↔ ∃ reference, reference.use? name = some token ∧ Shares name holder reference :=
  UseQuery.mem_below_iff rooted (searched_spec rooted inside).2 (level_pos rooted inside)

/-- All references that share a definition are listed for it. -/
theorem referencesAt?_eq (defined : top.definitionAt? offset = some definition)
    (holds : holder.use? name = some definition) :
    top.referencesAt? offset
      = some (UseQuery.below ⟨name, holder.start, holder.level⟩ holder.searched) := by
  obtain ⟨parent, -, refers⟩ := parent?_of_use? holds
  rw [referencesAt?, defined, Option.bind_some, parent, Option.bind_some, refers, Option.map_some]

/-- What leads to a place that is around two names, and starts before the second of them, leads to the second if it is not beside the place. -/
theorem Leads.of_searched (leads : Leads outer node path reference) (between : Below place outer)
    (one : Below reference place) (other : Below holder place) : Leads outer node path holder := by
  obtain ⟨child, sibling, inner⟩ := between.exists_child
  have same := eq_of_within_children sibling (List.mem_filter.mp leads.onPath).1
    (.inr (Within.below one inner)) leads.within
  exact ⟨leads.member, leads.onPath, .inr (Within.below other (same ▸ inner)), leads.first⟩

/-- A name that starts between a node and the end of something the node leads to is led to by the node. -/
theorem Leads.of_before (rooted : top.Rooted) (inside : Below holder top)
    (names : holder.isNameRef = true) (referenceInside : Below reference top)
    (leads : Leads outer node path reference) (before : node.stop ≤ holder.start)
    (starts : holder.start < reference.stop) : ∃ path, Leads outer node path holder := by
  have proper := rooted.proper.of_within (.inr inside)
  have nonempty := start_lt_stop_of_isNameRef proper names
  have within := within_of_below rooted.topmost referenceInside leads.below
  have nodeRange := range_of_mem_children (List.mem_filter.mp leads.member).1
  have referenceRange := Within.range (.inr leads.below)
  have order := node.start_le_stop
  -- Nothing is below a name, so the name is below the place.
  obtain ⟨kind, isNode, -, atom⟩ := exists_kind_of_isNameRef names
  have bare := proper.nodes_eq_nil isNode atom
  have notAround : ¬ outer.Within holder := by
    intro around
    have composite := (Within.of_mem_children (List.mem_filter.mp leads.member).1).isLeaf
      (mem_nodes_iff.mp leads.member).2
    cases proper.eq_of_within_atom isNode atom around composite
    simpa [bare] using leads.member
  have below : Below holder outer := by
    rcases apartOrNested within (.inr inside) with apart | apart | around | same | below
    · omega
    · omega
    · exact absurd around notAround
    · exact absurd (.inl same.symm) notAround
    · exact below
  rcases leads_or_le below (isLeaf_of_isNameRef proper names) leads.member with found | after
  · exact found
  · omega

/-- No node that leads to a reference which shares a definition declares the name deeper than the definition. -/
theorem Shares.level_le (rooted : top.Rooted) (inside : Below holder top)
    (names : holder.isNameRef = true) (shares : Shares name holder reference)
    (leads : Leads outer node path reference)
    (declares : node.declares? name = some token) : token.level ≤ holder.level := by
  obtain ⟨below, within⟩ := searched_spec rooted inside
  have referenceInside : Below reference top := Within.below shares.below within
  rcases leads.below.within_or_below shares.below with inner | outside
  · -- The walk passes the node, so if it is deeper it ends before the definition.
    refine Nat.le_of_not_lt fun deeper => ?_
    have hidden : UseQuery.isHiddenBy ⟨name, holder.start, holder.level⟩ node = true := by
      rw [UseQuery.isHiddenBy, declares]
      simpa [Option.filter] using deeper
    have before : node.stop ≤ holder.start := by
      refine Nat.le_of_not_lt fun reaches => ?_
      simp [shares.visible outer node path inner leads reaches] at hidden
    obtain ⟨way, found⟩ := leads.of_before rooted inside names referenceInside before shares.ends
    exact absurd (level_le_of_leads rooted inside names found declares) (Nat.not_le.mpr deeper)
  · exact level_le_of_leads rooted inside names (leads.of_searched outside shares.below below)
      declares

/-- The nearest earlier declaration of a name that is nested no deeper than a level. -/
def shallowDeclaration? (level : Nat) (name : String) (place : Place) : Option Place :=
  place.previous.findSome? fun node => (node.declares? name).filter (isVisibleFrom level)

/-- A definition governs a use of its name if it is the nearest earlier declaration that is nested no deeper than itself, or if there is none and it is the nearest earlier assignment. -/
def Governs (definition token : Place) : Prop :=
  ∃ reference, token.parent? = some reference
    ∧ (reference.shallowDeclaration? definition.level definition.text = some definition
      ∨ reference.shallowDeclaration? definition.level definition.text = none
        ∧ reference.previous.findSome? (assigns? definition.text) = some definition)

/-- A listed use has the definition just if the definition governs it. -/
theorem definitionAt?_eq_iff_governs (rooted : top.Rooted)
    (defined : top.definitionAt? offset = some definition)
    (listed : top.referencesAt? offset = some uses) (member : token ∈ uses) :
    top.definitionAt? token.stop = some definition ↔ definition.Governs token := by
  obtain ⟨place, name, placeInside, placeNames, defines⟩ :=
    exists_reference_of_definitionAt? rooted defined
  obtain ⟨holder, inside, holds⟩ := (resolves_of_definitionOf? rooted placeInside placeNames
    defines).exists_holder rooted placeInside placeNames
  rw [referencesAt?_eq defined holds] at listed
  cases listed
  obtain ⟨reference, refers, shares⟩ := (mem_below_searched_iff rooted inside).mp member
  have referenceInside : Below reference top :=
    Within.below shares.below (searched_spec rooted inside).2
  have names := (use?_eq_some_iff.mp refers).1
  have composite :=
    isLeaf_of_isNameRef (rooted.proper.of_within (.inr referenceInside)) names
  obtain ⟨parent, -, -⟩ := parent?_of_use? refers
  obtain ⟨holderNames, -, text⟩ := use?_eq_some_iff.mp holds
  -- Whatever is declared before the use is nested no deeper than the definition.
  have shallow : reference.shallowDeclaration? definition.level name
      = reference.previous.findSome? (declares? name) := by
    refine findSome?_congr fun node earlier => filter_isVisibleFrom fun other declares => ?_
    obtain ⟨-, outer, path, leads⟩ :=
      (mem_previous_iff rooted.topmost (.inr referenceInside) composite).mp earlier
    rw [(parent?_of_use? holds).2.1]
    exact shares.level_le rooted inside holderNames leads declares
  rw [definitionAt?_stop rooted referenceInside refers,
    definitionOf?_eq rooted referenceInside names, Option.or_eq_some_iff, Governs, text]
  constructor
  · intro found
    exact ⟨reference, parent, by rwa [shallow]⟩
  · rintro ⟨other, same, governs⟩
    rw [parent] at same
    cases same
    rwa [shallow] at governs

end Dxl.Place
