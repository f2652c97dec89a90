import Dxl.Proofs.Name.Reference

/-! Searching: the node in which the uses of a definition are searched is around all that its declaration is beside, unless it names a function that is itself a parameter. -/

namespace Dxl.Place

variable {top inner outer node holder other definition parameter token : Place}
  {kind : NodeKind} {name : String}

/-- The parameter which a name names as a function. -/
def functionParameter? (token : Place) : Option Place :=
  ((token.parent?.bind parent?).filter (isA .funcDecl)).bind fun function =>
    function.parent?.filter (isA .param)

/-- What is right above a child is the place. -/
theorem parent?_of_mem_nodes (member : node ∈ outer.nodes) : node.parent? = some outer := by
  rw [parent?, ancestors_of_mem_children (List.mem_filter.mp member).1]
  rfl

/-- A declaration that is a scope is a function. -/
theorem isScope_of_isDeclaration (declares : kind.isDeclaration = true) :
    kind = .funcDecl ∨ kind.isScope = false := by
  cases kind <;> first | exact .inl rfl | exact .inr rfl | cases declares

/-- The uses of what a node holds without a scope in between are searched around the node. -/
theorem below_searched_of_scope (rooted : top.Rooted) (inside : Below node top)
    (member : node ∈ outer.nodes) (below : Below inner outer) (same : holder.scope = node.scope) :
    Below inner holder.searched := by
  -- The place that is searched holds whatever its scope does, the node among it.
  have around := below_scope rooted inside
  refine below_searched rooted (same ▸ within_of_below rooted.topmost inside around) ?_
  rw [same]
  exact Within.below below (around.within_of_mem_children (List.mem_filter.mp member).1)

/-- The uses of a declared name are searched around its declaration, or in the parameter that it names. -/
theorem Introduces.below_searched (rooted : top.Rooted) (inside : Below node top)
    (member : node ∈ outer.nodes) (below : Below inner outer)
    (introduces : Introduces node holder) (uses : holder.use? name = some definition) :
    Below inner holder.searched
      ∨ ∃ parameter, definition.functionParameter? = some parameter
          ∧ holder.searched = parameter := by
  cases introduces with
  | single isNode declares leading =>
    have held := (leadingName?_eq_some leading).1
    rcases isScope_of_isDeclaration declares with rfl | plain
    · -- The name of a function is used wherever the function is declared.
      left
      rw [searched, scope_of_isScope (List.mem_filter.mp held).1 isNode rfl, isA, isNode]
      simpa [parent?_of_mem_nodes member] using below
    · exact .inl (below_searched_of_scope rooted inside member below
        (scope_of_not_isScope rooted inside (List.mem_filter.mp held).1 isNode plain))
  -- Neither the list nor the declaration is a scope, so they share the scope of the name.
  | listed isNode inNode isList listed =>
    have listInside := (below_of_mem_nodes inNode).trans inside
    refine .inl (below_searched_of_scope rooted inside member below ?_)
    rw [scope_of_not_isScope rooted listInside (List.mem_filter.mp listed).1 isList rfl,
      scope_of_not_isScope rooted inside (List.mem_filter.mp inNode).1 isNode rfl]
  | parameter isNode inNode isParameter found leading =>
    rename_i parameter decl
    obtain ⟨inParameter, kind, isDecl, declares⟩ := parameterDecl?_eq_some found
    have held := (leadingName?_eq_some leading).1
    have parameterInside := (below_of_mem_nodes inNode).trans inside
    have declInside := (below_of_mem_nodes inParameter).trans parameterInside
    rcases isScope_of_isDeclaration declares with rfl | plain
    · -- A function that is a parameter is searched in the parameter, and nowhere else.
      right
      refine ⟨parameter, ?_, ?_⟩
      · rw [functionParameter?, (parent?_of_use? uses).1, Option.bind_some,
          parent?_of_mem_nodes held]
        simp [Option.filter, isA, isDecl, parent?_of_mem_nodes inParameter, isParameter]
      · rw [searched, scope_of_isScope (List.mem_filter.mp held).1 isDecl rfl, isA, isDecl]
        simp [parent?_of_mem_nodes inParameter]
    · -- Any other declaration of a parameter belongs to the function of the parameter.
      left
      rw [searched, scope_of_not_isScope rooted declInside (List.mem_filter.mp held).1 isDecl plain,
        scope_of_not_isScope rooted parameterInside (List.mem_filter.mp inParameter).1 isParameter rfl,
        scope_of_isScope (List.mem_filter.mp inNode).1 isNode rfl, isA, isA, isNode]
      simpa [parent?_of_mem_nodes member] using below

/-- The uses of an assigned name are searched around the statement. -/
theorem Assigns.below_searched (rooted : top.Rooted) (inside : Below node top)
    (member : node ∈ outer.nodes) (below : Below inner outer) (assigns : Assigns node holder) :
    Below inner holder.searched := by
  obtain ⟨isNode, inNode, isAssignment, leading⟩ := assigns
  have held := (leadingName?_eq_some leading).1
  refine below_searched_of_scope rooted inside member below ?_
  rw [scope_of_not_isScope rooted ((below_of_mem_nodes inNode).trans inside)
      (List.mem_filter.mp held).1 isAssignment rfl,
    scope_of_not_isScope rooted inside (List.mem_filter.mp inNode).1 isNode rfl]

/-- The uses of a function that is a parameter are searched in the parameter. -/
theorem searched_of_functionParameter? (uses : holder.use? name = some definition)
    (found : definition.functionParameter? = some parameter) : holder.searched = parameter := by
  obtain ⟨function, isFunction, isParameter⟩ := Option.bind_eq_some_iff.mp found
  rw [(parent?_of_use? uses).1, Option.bind_some, Option.filter_eq_some_iff] at isFunction
  obtain ⟨above, isDecl⟩ := isFunction
  -- The function right above the name is a scope, and so the nearest one.
  have scope : holder.scope = function := by
    obtain ⟨others, split⟩ := List.head?_eq_some_iff.mp above
    have isNode : function.kind = .node .funcDecl := by simpa [isA] using isDecl
    rw [scope, split, List.find?_cons, isNode]
    rfl
  rw [searched, scope, isDecl, Bool.true_or, if_pos rfl,
    Option.eq_some_of_filter_eq_some isParameter]
  rfl

/-- A node that declares a name is a declaration or a list of parameters. -/
theorem exists_kind_of_declares (declares : node.declares? name = some definition) :
    ∃ kind, node.kind = .node kind ∧ (kind.isDeclaration || kind == .paramList) = true := by
  obtain ⟨reference, introduces, -⟩ := exists_introduces declares
  obtain ⟨kind, isNode, declares | rfl⟩ := introduces.exists_kind
  · exact ⟨kind, isNode, by simp [declares]⟩
  · exact ⟨.paramList, isNode, rfl⟩

/-- A reference to a name declares nothing. -/
theorem declares?_eq_none_of_isNameRef (names : node.isNameRef = true) :
    node.declares? name = none := by
  rw [Option.eq_none_iff_forall_ne_some]
  intro token declares
  -- What is declared has a kind that references never have.
  obtain ⟨kind, isNode, declaring⟩ := exists_kind_of_declares declares
  obtain ⟨_, same, isName, -⟩ := exists_kind_of_isNameRef names
  rw [isNode] at same
  cases same
  cases kind <;> first | exact absurd declaring (by decide) | exact absurd isName (by decide)

/-- Nothing right below a node declares a name if the node may hold no declarations and no parameters. -/
theorem declares?_eq_none_of_mayHold (proper : outer.Proper) (isNode : outer.kind = .node kind)
    (member : node ∈ outer.nodes)
    (plain : ∀ inner, kind.mayHold inner = true →
      (inner.isDeclaration || inner == .paramList) = false) : node.declares? name = none := by
  obtain ⟨outerKind, innerKind, isOuter, isInner, holds⟩ := proper.exists_kinds member
  rw [isNode] at isOuter
  cases isOuter
  rw [Option.eq_none_iff_forall_ne_some]
  intro token declares
  obtain ⟨other, same, holder⟩ := exists_kind_of_declares declares
  rw [isInner] at same
  cases same
  simp [plain innerKind holds] at holder

/-- Nothing right below a declaration declares a name before the name of the declaration itself. -/
theorem declares?_eq_none_of_before (proper : outer.Proper) (isNode : outer.kind = .node kind)
    (declares : kind.isDeclaration = true) (held : holder ∈ outer.nodes)
    (names : holder.isNameRef = true) (member : node ∈ outer.nodes)
    (before : node.start < holder.start) : node.declares? name = none := by
  cases kind <;> try cases declares
  case varDecl | arrayDecl =>
    exact declares?_eq_none_of_mayHold proper isNode member (by intro inner; cases inner <;> decide)
  case funcDecl =>
    rw [Option.eq_none_iff_forall_ne_some]
    intro token found
    -- Only the parameters of a function declare names right below it, and they follow its name.
    obtain ⟨inner, isInner, declaring⟩ := exists_kind_of_declares found
    have isList : node.kind = .node .paramList := by
      obtain ⟨_, same, isOuter, isSame, holds⟩ := proper.exists_kinds member
      rw [isNode] at isOuter
      rw [isInner] at isSame
      cases isOuter
      cases isSame
      cases inner <;>
        first
        | exact isInner
        | exact absurd holds (by decide)
        | exact absurd declaring (by decide)
    obtain ⟨-, type, called, others, split, isType, isName, levels⟩ :=
      funcDecl_of_mem_paramList proper member isList
    -- The list of parameters follows the type and the name, which are all that comes before it.
    have ordered := split ▸ outer.nodes_pairwise
    rw [List.pairwise_cons, List.pairwise_cons] at ordered
    have := holder.start_le_stop
    simp only [isNameRef] at names
    rcases List.mem_cons.mp (split ▸ held) with rfl | held
    · simp [isType, Kind.isNodeWith, NodeKind.isNameRef] at names
    · rcases List.mem_cons.mp held with rfl | held
      · rcases List.mem_cons.mp (split ▸ member) with rfl | further
        · simp [isType] at isList
        · rcases List.mem_cons.mp further with rfl | further
          · simp [isName] at isList
          · have := ordered.2.1 node further
            omega
      · obtain ⟨heldKind, isHeld, -, unnamed⟩ := levels holder held
        simp [isHeld, Kind.isNodeWith, unnamed] at names

/-- A declaration with a leading name declares that name only. -/
theorem declares?_eq_use? (isNode : node.kind = .node kind) (declares : kind.isDeclaration = true)
    (leading : node.leadingName? = some holder) : node.declares? name = holder.use? name := by
  have used : node.declaredUse? name = holder.use? name := by
    rw [declaredUse?, leading, Option.bind_some]
  cases kind <;> try cases declares
  case varDecl =>
    -- The leading name is no list of names.
    obtain ⟨first, names⟩ := Option.filter_eq_some_iff.mp leading
    have single : node.declaredNames? = none := by
      rw [declaredNames?, first]
      obtain ⟨kind, isHolder, isName, -⟩ := exists_kind_of_isNameRef names
      have notList : holder.isA .nameList = false := by
        rw [isA, isHolder]
        cases kind <;> first | rfl | cases isName
      simp [Option.filter, notList]
    simp only [Place.declares?, isNode, single, used]
  all_goals simp only [Place.declares?, isNode, used]

/-- A parameter holds at most one node. -/
theorem eq_of_mem_parameter (proper : outer.Proper) (isParameter : outer.kind = .node .param)
    (one : node ∈ outer.nodes) (two : other ∈ outer.nodes) : node = other := by
  obtain ⟨kinds, same, admitted⟩ := proper.nodes isParameter
  have short : outer.nodes.length ≤ 1 := by
    rw [← List.length_map Place.kind, same, List.length_map]
    simp only [NodeKind.admits] at admitted
    split at admitted
    · simp
    · simp
    · cases admitted
  rcases found : outer.nodes with _ | ⟨single, others⟩
  · simp [found] at one
  · -- There is no room for others beside the first one.
    rw [found, List.length_cons] at short
    obtain rfl : others = [] := List.length_eq_zero_iff.mp (by omega)
    rw [found, List.mem_singleton] at one two
    rw [one, two]

/-- Within a node that declares a name, whatever is around the name and starts before it declares nothing but the name. -/
theorem Introduces.declares_inner (proper : node.Proper) (introduces : Introduces node holder)
    (names : holder.isNameRef = true) (uses : holder.use? name = some definition)
    (within : outer.Within node) (below : Below holder outer) (member : other ∈ outer.nodes)
    (before : other.start < holder.start) (declares : other.declares? name = some token) :
    token = definition := by
  have none : other.declares? name = none → token = definition := fun none => by
    simp [none] at declares
  -- What is around the name can only be one of the few nodes between it and the given one.
  cases introduces with
  | single isNode declares leading =>
    have held := (leadingName?_eq_some leading).1
    cases (below.within_of_mem_children (List.mem_filter.mp held).1).antisymm within
    exact none (declares?_eq_none_of_before proper isNode declares held names member before)
  | listed isNode inNode isList listed =>
    have listProper := proper.of_mem_children (List.mem_filter.mp inNode).1
    rcases below.within_of_mem_children (List.mem_filter.mp listed).1 with rfl | further
    · exact none (declares?_eq_none_of_mayHold listProper isList member
        (by intro inner; cases inner <;> decide))
    · cases (further.within_of_mem_children (List.mem_filter.mp inNode).1).antisymm within
      exact none (declares?_eq_none_of_mayHold proper isNode member
        (by intro inner; cases inner <;> decide))
  | parameter isNode inNode isParameter found leading =>
    rename_i parameter decl
    obtain ⟨inParameter, kind, isDecl, declaring⟩ := parameterDecl?_eq_some found
    have held := (leadingName?_eq_some leading).1
    have parameterProper := proper.of_mem_children (List.mem_filter.mp inNode).1
    have declProper := parameterProper.of_mem_children (List.mem_filter.mp inParameter).1
    rcases below.within_of_mem_children (List.mem_filter.mp held).1 with rfl | further
    · exact none (declares?_eq_none_of_before declProper isDecl declaring held names member before)
    · rcases further.within_of_mem_children (List.mem_filter.mp inParameter).1 with rfl | further
      · -- A parameter holds one declaration, whose leading name this is.
        cases eq_of_mem_parameter parameterProper isParameter inParameter member
        rw [declares?_eq_use? isDecl declaring leading, uses] at declares
        exact (Option.some.inj declares).symm
      · cases (further.within_of_mem_children (List.mem_filter.mp inNode).1).antisymm within
        exact none (declares?_eq_none_of_mayHold proper isNode member
          (by intro inner; cases inner <;> decide))

/-- Within a statement that assigns to a name, nothing around the name declares anything or assigns. -/
theorem Assigns.defines_inner (proper : node.Proper) (assigns : Assigns node holder)
    (within : outer.Within node) (below : Below holder outer) (member : other ∈ outer.nodes) :
    other.declares? name = none ∧ other.assigns? name = none := by
  obtain ⟨isNode, inNode, isAssignment, leading⟩ := assigns
  have held := (leadingName?_eq_some leading).1
  -- Neither the statement nor the assignment holds anything but parts of expressions.
  obtain ⟨kind, outerProper, isOuter, parts⟩ : ∃ kind, outer.Proper ∧ outer.kind = .node kind
      ∧ ∀ inner, kind.mayHold inner = true → inner.isPart = true := by
    rcases below.within_of_mem_children (List.mem_filter.mp held).1 with rfl | further
    · exact ⟨_, proper.of_within within, isAssignment, fun _ => id⟩
    · cases (further.within_of_mem_children (List.mem_filter.mp inNode).1).antisymm within
      exact ⟨_, proper, isNode, fun _ => NodeKind.isPart_of_isTerm⟩
  refine ⟨declares?_eq_none_of_mayHold outerProper isOuter member fun inner holds => ?_, ?_⟩
  · have := parts inner holds
    cases inner <;> first | rfl | cases this
  · rw [Option.eq_none_iff_forall_ne_some]
    intro token found
    obtain ⟨_, assigned, -⟩ := exists_assigns found
    obtain ⟨isStatement, -, -, -⟩ := assigned
    obtain ⟨_, inner, same, isInner, holds⟩ := outerProper.exists_kinds member
    rw [isOuter] at same
    rw [isStatement] at isInner
    cases same
    cases isInner
    exact absurd (parts _ holds) (by decide)

/-- What is around a name in a node that leads to a place is around the place too, or it is within the node. -/
theorem Leads.around_or_within {path reference : Place} (leads : Leads outer node path reference)
    (held : Below holder node) (around : Below holder other) :
    Below reference other ∨ other.Within node := by
  have member := (List.mem_filter.mp leads.member).1
  rcases (held.trans (.child member)).within_or_below around with within | below
  · -- The node and whatever else is around the name are nested.
    exact .inl (Within.below leads.below within)
  · obtain ⟨child, sibling, inner⟩ := below.exists_child
    have same := eq_of_within_children sibling member (.inr (Within.below around inner)) (.inr held)
    exact .inr (same ▸ inner)

/-- The uses of what a node defines are searched around the node, or in a parameter that is a function. -/
theorem below_searched_of_holds (rooted : top.Rooted) (inside : Below node top)
    (member : node ∈ outer.nodes) (below : Below inner outer)
    (holds : Introduces node holder ∨ Assigns node holder)
    (uses : holder.use? name = some definition) :
    Below inner holder.searched
      ∨ ∃ parameter, definition.functionParameter? = some parameter
          ∧ holder.searched = parameter := by
  rcases holds with introduces | assigns
  · -- The two ways to define a name differ in where the name is held.
    exact introduces.below_searched rooted inside member below uses
  · exact .inl (assigns.below_searched rooted inside member below)

/-- What the definition of a reference itself resolves to is the same definition, or is held by a node beside what is around the reference. -/
theorem Resolves.eq_or_around {reference origin : Place} (rooted : top.Rooted)
    (inside : Below reference top) (names : reference.isNameRef = true)
    (resolves : Resolves name reference definition) (uses : holder.use? name = some definition)
    (further : Resolves name holder origin) :
    origin = definition ∨ ∃ node outer source, node ∈ outer.nodes ∧ Below reference outer
      ∧ source.use? name = some origin ∧ (Introduces node source ∨ Assigns node source) := by
  have composite := isLeaf_of_isNameRef (rooted.proper.of_within (.inr inside)) names
  have holderNames := (use?_eq_some_iff.mp uses).1
  obtain ⟨_, holderInside, same⟩ := resolves.exists_holder rooted inside names
  cases eq_of_use? same uses
  have holderProper := rooted.proper.of_within (.inr holderInside)
  have earlier : ∀ node, node ∈ reference.previous ↔ node.start < reference.start
      ∧ ∃ outer path, Leads outer node path reference := fun _ =>
    mem_previous_iff rooted.topmost (.inr inside) composite
  have earlierHolder : ∀ node, node ∈ holder.previous ↔ node.start < holder.start
      ∧ ∃ outer path, Leads outer node path holder := fun _ =>
    mem_previous_iff rooted.topmost (.inr holderInside)
      (isLeaf_of_isNameRef holderProper holderNames)
  -- A node that makes the name known to the holder is around the node of the holder or within it.
  cases resolves with
  | @declared node _ member declares held heldUses _ =>
    cases eq_of_use? heldUses uses
    obtain ⟨-, outer, path, leads⟩ := (earlier node).mp member
    have proper := rooted.proper.of_within (.inr (leads.inside rooted.topmost inside))
    cases further with
    | declared other declaresOther heldOther usesOther _ =>
      obtain ⟨before, around, way, leadsHolder⟩ := (earlierHolder _).mp other
      rcases leads.around_or_within held.below leadsHolder.below with outside | within
      · exact .inr ⟨_, around, _, leadsHolder.member, outside, usesOther, .inl heldOther⟩
      · exact .inl (held.declares_inner proper holderNames uses within leadsHolder.below
          leadsHolder.member before declaresOther)
    | assigned other _ heldOther usesOther undeclared =>
      obtain ⟨before, around, way, leadsHolder⟩ := (earlierHolder _).mp other
      rcases leads.around_or_within held.below leadsHolder.below with outside | within
      · exact .inr ⟨_, around, _, leadsHolder.member, outside, usesOther, .inr heldOther⟩
      · -- The declaring node is itself before the name.
        have range := within.range
        have inner := range_of_mem_children (List.mem_filter.mp leadsHolder.member).1
        have first := (earlierHolder node).mpr
          ⟨by omega, outer, node, .refl leads.member (.inr held.below)⟩
        simp [undeclared node first] at declares
  | @assigned node _ member _ held heldUses _ =>
    cases eq_of_use? heldUses uses
    obtain ⟨-, outer, path, leads⟩ := (earlier node).mp member
    have proper := rooted.proper.of_within (.inr (leads.inside rooted.topmost inside))
    cases further with
    | declared other declaresOther heldOther usesOther _ =>
      obtain ⟨before, around, way, leadsHolder⟩ := (earlierHolder _).mp other
      rcases leads.around_or_within held.below leadsHolder.below with outside | within
      · exact .inr ⟨_, around, _, leadsHolder.member, outside, usesOther, .inl heldOther⟩
      · -- Nothing is declared within a node that assigns, before the name that it assigns to.
        rw [(held.defines_inner proper within leadsHolder.below leadsHolder.member).1] at declaresOther
        cases declaresOther
    | assigned other assignsOther heldOther usesOther _ =>
      obtain ⟨before, around, way, leadsHolder⟩ := (earlierHolder _).mp other
      rcases leads.around_or_within held.below leadsHolder.below with outside | within
      · exact .inr ⟨_, around, _, leadsHolder.member, outside, usesOther, .inr heldOther⟩
      · rw [(held.defines_inner proper within leadsHolder.below leadsHolder.member).2] at assignsOther
        cases assignsOther

/-- The uses of the definition of a reference are searched around the reference, or in a parameter that is a function. -/
theorem Resolves.below_own_searched {reference : Place} (rooted : top.Rooted)
    (inside : Below reference top) (names : reference.isNameRef = true)
    (resolves : Resolves name reference definition) (uses : holder.use? name = some definition) :
    Below reference holder.searched
      ∨ ∃ parameter, definition.functionParameter? = some parameter
          ∧ holder.searched = parameter := by
  -- What defines the name stands beside something around the reference.
  obtain ⟨node, outer, path, leads, holds⟩ : ∃ node outer path, Leads outer node path reference
      ∧ (Introduces node holder ∨ Assigns node holder) := by
    have composite := isLeaf_of_isNameRef (rooted.proper.of_within (.inr inside)) names
    cases resolves with
    | declared member _ held heldUses _ =>
      cases eq_of_use? heldUses uses
      obtain ⟨-, outer, path, leads⟩ :=
        (mem_previous_iff rooted.topmost (.inr inside) composite).mp member
      exact ⟨_, outer, path, leads, .inl held⟩
    | assigned member _ held heldUses _ =>
      cases eq_of_use? heldUses uses
      obtain ⟨-, outer, path, leads⟩ :=
        (mem_previous_iff rooted.topmost (.inr inside) composite).mp member
      exact ⟨_, outer, path, leads, .inr held⟩
  -- What is beside something around the reference is searched from there.
  exact below_searched_of_holds rooted (leads.inside rooted.topmost inside) leads.member
    leads.below holds uses

/-- The uses of what the definition of a reference itself resolves to are searched around the reference, or in a parameter that is a function. -/
theorem Resolves.below_searched {reference source origin : Place} (rooted : top.Rooted)
    (inside : Below reference top) (names : reference.isNameRef = true)
    (resolves : Resolves name reference definition) (uses : holder.use? name = some definition)
    (further : Resolves name holder origin) (sourceUses : source.use? name = some origin) :
    Below reference source.searched
      ∨ ∃ parameter, origin.functionParameter? = some parameter
          ∧ source.searched = parameter := by
  rcases resolves.eq_or_around rooted inside names uses further with
    rfl | ⟨node, outer, found, member, below, same, holds⟩
  · exact resolves.below_own_searched rooted inside names sourceUses
  · cases eq_of_use? same sourceUses
    exact below_searched_of_holds rooted
      (Within.below (below_of_mem_nodes member) (within_of_below rooted.topmost inside below))
      member below holds sourceUses

end Dxl.Place
