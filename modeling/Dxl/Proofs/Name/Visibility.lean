import Dxl.Proofs.Name.Declaring
import Dxl.Proofs.Place.Locate

/-! Visibility: a node that leads to a name declares names no deeper than it, so that the nearest declaration is always visible. -/

namespace Dxl.Place

variable {place child inner outer top node path reference token other : Place} {kind : NodeKind}
  {name : String}

/-- A reference to a name is no leaf. -/
theorem isLeaf_of_isNameRef (proper : place.Proper) (names : place.isNameRef = true) :
    place.tree.isLeaf = false := by
  obtain ⟨kind, isNode, -⟩ := exists_kind_of_isNameRef names
  obtain ⟨children, same⟩ := proper.exists_children isNode
  rw [same]
  rfl

/-- A reference to a name has a token of its own, which is where it ends. -/
theorem exists_token_of_isNameRef (proper : place.Proper) (names : place.isNameRef = true) :
    ∃ token, place.firstToken? = some token ∧ token ∈ place.tokens ∧ token.stop = place.stop
      ∧ token.start < token.stop := by
  obtain ⟨kind, isNode, -, atom⟩ := exists_kind_of_isNameRef names
  exact proper.exists_token isNode atom

/-- A reference to a name is not empty. -/
theorem start_lt_stop_of_isNameRef (proper : place.Proper) (names : place.isNameRef = true) :
    place.start < place.stop := by
  obtain ⟨token, -, member, stop, nonempty⟩ := exists_token_of_isNameRef proper names
  have := range_of_mem_children (List.mem_filter.mp member).1
  omega

/-- The parameters of a function follow its type and its name, and only its body can follow them. -/
theorem funcDecl_of_mem_paramList (proper : outer.Proper) (member : node ∈ outer.nodes)
    (isList : node.kind = .node .paramList) :
    outer.kind = .node .funcDecl ∧ ∃ type name others, outer.nodes = type :: name :: others
      ∧ type.kind = .node .typeRef ∧ name.kind = .node .nameRef
      ∧ ∀ other ∈ others, ∃ kind, other.kind = .node kind ∧ kind.isLevel = true
          ∧ kind.isNameRef = false := by
  obtain ⟨outerKind, innerKind, outerNode, innerNode, holds⟩ := proper.exists_kinds member
  rw [isList] at innerNode
  cases innerNode
  -- Among all kinds only a function may hold a list of parameters.
  have isFunction : outerKind = .funcDecl := by
    cases outerKind <;> first | rfl | cases holds
  subst isFunction
  refine ⟨outerNode, ?_⟩
  obtain ⟨kinds, same, admitted⟩ := proper.nodes outerNode
  have listed : NodeKind.paramList ∈ kinds := by
    have mapped : node.kind ∈ kinds.map Kind.node := same ▸ List.mem_map_of_mem member
    simpa [isList] using mapped
  -- Of the five ways to lay a function out, only those with a type and a name have parameters.
  obtain ⟨more, rfl, allLevels⟩ : ∃ more, kinds = .typeRef :: .nameRef :: more
      ∧ ∀ kind ∈ more, kind.isLevel = true ∧ kind.isNameRef = false := by
    simp only [NodeKind.admits] at admitted
    split at admitted
    all_goals first | exact ⟨_, rfl, by decide⟩ | simp at listed | cases admitted
  obtain ⟨type, rest, split, isType, following⟩ := List.map_eq_cons_iff.mp same
  obtain ⟨name, others, rfl, isName, levels⟩ := List.map_eq_cons_iff.mp following
  refine ⟨type, name, others, split, isType, isName, fun other further => ?_⟩
  have mapped : other.kind ∈ more.map Kind.node := levels ▸ List.mem_map_of_mem further
  obtain ⟨kind, inMore, isKind⟩ := List.mem_map.mp mapped
  exact ⟨kind, isKind.symm, allLevels kind inMore⟩

/-- What a list of parameters leads to is within a level, the list or the body. -/
theorem Leads.isLevel (proper : outer.Proper) (leads : Leads outer node path inner)
    (isList : node.kind = .node .paramList) (nonempty : node.start < node.stop) :
    ∃ kind, path.kind = .node kind ∧ kind.isLevel = true ∧ kind.isNameRef = false := by
  obtain ⟨-, type, name, others, split, isType, isName, levels⟩ :=
    funcDecl_of_mem_paramList proper leads.member isList
  have ordered := split ▸ outer.nodes_pairwise
  rw [List.pairwise_cons, List.pairwise_cons] at ordered
  have member := split ▸ leads.member
  have onPath := split ▸ leads.onPath
  have further : node ∈ others := by
    rcases List.mem_cons.mp member with rfl | rest
    · simp [isList] at isType
    · rcases List.mem_cons.mp rest with rfl | further
      · simp [isList] at isName
      · exact further
  rcases List.mem_cons.mp onPath with rfl | rest
  · -- The type comes before the list.
    have before := ordered.1 node (.tail _ further)
    have := path.start_le_stop
    rcases leads.first with rfl | after
    · simp [isList] at isType
    · omega
  · rcases List.mem_cons.mp rest with rfl | later
    · -- So does the name.
      have before := ordered.2.1 node further
      have := path.start_le_stop
      rcases leads.first with rfl | after
      · simp [isList] at isName
      · omega
    · exact levels path later

/-- A node that leads to a reference declares names no deeper than the reference. -/
theorem Leads.innerLevel_le (proper : outer.Proper) (leads : Leads outer node path inner)
    (introduces : Introduces node reference) (nonempty : node.start < node.stop)
    (names : inner.isNameRef = true) : node.innerLevel ≤ inner.level := by
  have outerLevel := leads.below.innerLevel_le
  obtain ⟨kind, isNode, declares | isList⟩ := introduces.exists_kind
  · -- A declaration is no level of its own.
    have plain : kind.isLevel = false := by cases kind <;> first | rfl | cases declares
    rw [innerLevel_eq isNode, plain, level_of_mem_nodes leads.member]
    exact outerLevel
  · subst isList
    obtain ⟨pathKind, isPath, isLevel, notName⟩ := leads.isLevel proper isNode nonempty
    have below : Below inner path := by
      rcases leads.within with rfl | below
      · simp [isNameRef, isPath, Kind.isNodeWith, notName] at names
      · exact below
    have := below.innerLevel_le
    rw [innerLevel_eq isPath, isLevel, level_of_mem_nodes leads.onPath] at this
    rw [innerLevel_eq isNode, level_of_mem_nodes leads.member]
    exact this

/-- A name is used by the token of a reference, which is nested as deeply as the reference. -/
theorem parent?_of_use? (uses : reference.use? name = some token) :
    token.parent? = some reference ∧ token.level = reference.level
      ∧ reference.referredName? = some name := by
  obtain ⟨names, first, text⟩ := use?_eq_some_iff.mp uses
  have member : token ∈ reference.children :=
    (List.mem_filter.mp (List.mem_of_find?_eq_some first)).1
  obtain ⟨kind, isNode, nameRef, -⟩ := exists_kind_of_isNameRef names
  have plain : kind.isLevel = false := by cases kind <;> first | rfl | cases nameRef
  refine ⟨?_, ?_, ?_⟩
  · rw [parent?, ancestors_of_mem_children member]
    rfl
  · rw [level_of_mem_children member, innerLevel_eq isNode, plain]
    rfl
  · rw [referredName?, if_pos names, first, Option.map_some, text]

/-- A node that leads to a reference declares names no deeper than the reference. -/
theorem level_le_of_leads (rooted : top.Rooted) (inside : Below place top)
    (names : place.isNameRef = true) (leads : Leads outer node path place)
    (declares : node.declares? name = some token) : token.level ≤ place.level := by
  have proper := rooted.proper.of_within (within_of_below rooted.topmost inside leads.below)
  obtain ⟨reference, introduces, uses⟩ := exists_introduces declares
  have inNode := Within.range (.inr introduces.below)
  have nonempty := start_lt_stop_of_isNameRef
    ((proper.of_mem_children (List.mem_filter.mp leads.member).1).of_within (.inr introduces.below))
    (use?_eq_some_iff.mp uses).1
  rw [(parent?_of_use? uses).2.1, introduces.level]
  exact leads.innerLevel_le proper introduces (by omega) names

/-- A statement that leads to a reference assigns to names no deeper than the reference. -/
theorem level_le_of_leads_of_assigns (leads : Leads outer node path place)
    (assigns : node.assigns? name = some token) : token.level ≤ place.level := by
  obtain ⟨reference, assigned, uses⟩ := exists_assigns assigns
  rw [(parent?_of_use? uses).2.1, assigned.level, level_of_mem_nodes leads.member]
  exact leads.below.innerLevel_le

/-- Searches for what each member gives agree if the members give the same. -/
theorem findSome?_congr {α β : Type} {one other : α → Option β} {members : List α}
    (same : ∀ member ∈ members, one member = other member) :
    members.findSome? one = members.findSome? other := by
  induction members with
  | nil => rfl
  | cons member rest ih =>
    rw [List.findSome?_cons, List.findSome?_cons, same member (by simp),
      ih fun later inRest => same later (by simp [inRest])]

/-- A definition that is nested no deeper than a level is visible from it. -/
theorem filter_isVisibleFrom {level : Nat} {definition? : Option Place}
    (shallow : ∀ token, definition? = some token → token.level ≤ level) :
    definition?.filter (isVisibleFrom level) = definition? := by
  cases definition? with
  | none => rfl
  | some token => simp [Option.filter, isVisibleFrom, shallow token rfl]

/-- A reference has the nearest earlier declaration of its name, or else the nearest earlier assignment. -/
theorem definitionOf?_eq (rooted : top.Rooted) (inside : Below place top)
    (names : place.isNameRef = true) :
    place.definitionOf? name = (place.previous.findSome? (declares? name)).or
      (place.previous.findSome? (assigns? name)) := by
  have composite := isLeaf_of_isNameRef (rooted.proper.of_within (.inr inside)) names
  have leads : ∀ node ∈ place.previous, ∃ outer path, Leads outer node path place :=
    fun node member =>
      ((mem_previous_iff rooted.topmost (.inr inside) composite).mp member).2
  -- Both searches pass over what is nested more deeply, but an earlier node that declares or
  -- assigns never is.
  rw [definitionOf?, Option.orElse_eq_orElse, Option.orElse_eq_or]
  congr 1
  · refine findSome?_congr fun node member => filter_isVisibleFrom fun token declares => ?_
    obtain ⟨outer, path, leads⟩ := leads node member
    exact level_le_of_leads rooted inside names leads declares
  · refine findSome?_congr fun node member => filter_isVisibleFrom fun token assigns => ?_
    obtain ⟨outer, path, leads⟩ := leads node member
    exact level_le_of_leads_of_assigns leads assigns

end Dxl.Place
