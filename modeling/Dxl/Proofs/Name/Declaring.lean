import Dxl.Proofs.Name.Scope

/-! Declaring nodes: where a node holds the names that it declares or assigns to, and how deeply they are nested. -/

namespace Dxl.Place

variable {place child inner outer top node path reference token : Place} {kind : NodeKind}
  {name : String}

/-- A node declares a name by a reference to it: right below the node, in a list of names, or in a parameter. -/
inductive Introduces : Place → Place → Prop
  | single {node reference : Place} {kind : NodeKind} (isNode : node.kind = .node kind)
      (declares : kind.isDeclaration = true) (leading : node.leadingName? = some reference) :
      Introduces node reference
  | listed {node list reference : Place} (isNode : node.kind = .node .varDecl)
      (member : list ∈ node.nodes) (isList : list.kind = .node .nameList)
      (listed : reference ∈ list.nodes) : Introduces node reference
  | parameter {node parameter decl reference : Place} (isNode : node.kind = .node .paramList)
      (member : parameter ∈ node.nodes) (isParameter : parameter.kind = .node .param)
      (found : parameter.parameterDecl? = some decl)
      (leading : decl.leadingName? = some reference) : Introduces node reference

/-- A statement assigns to a name by a reference to it in an assignment. -/
inductive Assigns : Place → Place → Prop
  | mk {node assignment reference : Place} (isNode : node.kind = .node .exprStmt)
      (member : assignment ∈ node.nodes) (isAssignment : assignment.kind = .node .assignment)
      (leading : assignment.leadingName? = some reference) : Assigns node reference

/-- A node uses a name by its first token. -/
theorem use?_eq_some_iff :
    place.use? name = some token
      ↔ place.isNameRef = true ∧ place.firstToken? = some token ∧ token.text = name := by
  rw [use?]
  split <;> simp_all [Option.filter_eq_some_iff]

/-- A reference to a name is a node that holds a single token. -/
theorem exists_kind_of_isNameRef (names : place.isNameRef = true) :
    ∃ kind, place.kind = .node kind ∧ kind.isNameRef = true ∧ kind.isAtom = true := by
  unfold isNameRef at names
  cases found : place.kind with
  | token kind => simp [found, Kind.isNodeWith] at names
  | node kind =>
    rw [found] at names
    refine ⟨kind, rfl, names, ?_⟩
    cases kind <;> first | rfl | cases names

/-- A leading name is right below, and a reference. -/
theorem leadingName?_eq_some (found : place.leadingName? = some reference) :
    reference ∈ place.nodes ∧ reference.isNameRef = true := by
  obtain ⟨numbered, isName⟩ := Option.filter_eq_some_iff.mp found
  exact ⟨(List.mem_filter.mp (List.mem_of_getElem? numbered)).1, isName⟩

/-- What a parameter declares is right below it. -/
theorem parameterDecl?_eq_some {decl : Place} (found : place.parameterDecl? = some decl) :
    decl ∈ place.nodes ∧ ∃ kind, decl.kind = .node kind ∧ kind.isDeclaration = true := by
  refine ⟨List.mem_of_find?_eq_some found, ?_⟩
  have declares := List.find?_some found
  simp only [isA, Bool.or_eq_true, beq_iff_eq] at declares
  rcases declares with (isNode | isNode) | isNode <;> exact ⟨_, isNode, rfl⟩

/-- The name by which a node declares it is in a reference that the node holds. -/
theorem exists_introduces (declares : node.declares? name = some token) :
    ∃ reference, Introduces node reference ∧ reference.use? name = some token := by
  -- One case for each kind of node that declares, in the order of the definition.
  unfold declares? at declares
  split at declares
  · rename_i isNode
    split at declares
    · rename_i names listed
      obtain ⟨reference, member, uses⟩ := List.exists_of_findSome?_eq_some declares
      obtain ⟨list, leading, found⟩ := Option.bind_eq_some_iff.mp listed
      rw [Option.filter_eq_some_iff] at leading
      have inNodes : list ∈ node.nodes :=
        (List.mem_filter.mp (List.mem_of_getElem? leading.1)).1
      have isList : list.kind = .node .nameList := by simpa [isA] using leading.2
      unfold listedNames? at found
      split at found
      · cases found
      · cases found
        exact ⟨reference, .listed isNode inNodes isList (List.mem_filter.mp member).1, uses⟩
    · obtain ⟨reference, leading, uses⟩ := Option.bind_eq_some_iff.mp declares
      exact ⟨reference, .single isNode rfl leading, uses⟩
  · rename_i isNode
    obtain ⟨reference, leading, uses⟩ := Option.bind_eq_some_iff.mp declares
    exact ⟨reference, .single isNode rfl leading, uses⟩
  · rename_i isNode
    obtain ⟨reference, leading, uses⟩ := Option.bind_eq_some_iff.mp declares
    exact ⟨reference, .single isNode rfl leading, uses⟩
  · rename_i isNode
    obtain ⟨parameter, member, found⟩ := List.exists_of_findSome?_eq_some declares
    obtain ⟨decl, isDecl, declared⟩ := Option.bind_eq_some_iff.mp found
    obtain ⟨reference, leading, uses⟩ := Option.bind_eq_some_iff.mp declared
    have isParameter : parameter.kind = .node .param := by
      simpa [isA] using (List.mem_filter.mp member).2
    exact ⟨reference, .parameter isNode (List.mem_filter.mp member).1 isParameter isDecl leading,
      uses⟩
  · cases declares

/-- A statement plainly assigns to a name if it begins with an assignment that the name leads. -/
theorem exists_assignment (assigns : node.assigns? name = some token) :
    ∃ assignment reference, node.kind = .node .exprStmt ∧ node.expression? 0 = some assignment
      ∧ assignment.kind = .node .assignment ∧ assignment.leadingName? = some reference
      ∧ reference.use? name = some token := by
  obtain ⟨assignment, content, rest⟩ := Option.bind_eq_some_iff.mp assigns
  obtain ⟨_, _, declared⟩ := Option.bind_eq_some_iff.mp rest
  obtain ⟨reference, leading, uses⟩ := Option.bind_eq_some_iff.mp declared
  -- Only in a statement is there a content to find, so the node is one.
  rw [Option.filter_eq_some_iff] at content
  obtain ⟨found, isAssignment⟩ := content
  unfold content? at found
  split at found
  · rename_i isNode
    exact ⟨assignment, reference, by simpa [isA] using isNode, found, by simpa [isA] using isAssignment,
      leading, uses⟩
  · cases found

/-- The name by which a statement assigns to it is in a reference that the statement holds. -/
theorem exists_assigns (assigns : node.assigns? name = some token) :
    ∃ reference, Assigns node reference ∧ reference.use? name = some token := by
  obtain ⟨assignment, reference, isNode, first, isAssignment, leading, uses⟩ :=
    exists_assignment assigns
  have member := (List.mem_filter.mp (List.mem_of_getElem? first)).1
  exact ⟨reference, .mk isNode member isAssignment leading, uses⟩

namespace Introduces

/-- A declared name lies below the declaring node. -/
theorem below (introduces : Introduces node reference) : Below reference node := by
  cases introduces with
  | single _ _ leading => exact below_of_leadingName? leading
  | listed _ member _ listed =>
    exact (below_of_mem_nodes listed).trans (below_of_mem_nodes member)
  | parameter _ member _ found leading =>
    exact (below_of_leadingName? leading).trans
      ((below_of_parameterDecl? found).trans (below_of_mem_nodes member))

/-- What declares names is a declaration or a list of parameters. -/
theorem exists_kind (introduces : Introduces node reference) :
    ∃ kind, node.kind = .node kind ∧ (kind.isDeclaration = true ∨ kind = .paramList) := by
  cases introduces with
  | single isNode declares _ => exact ⟨_, isNode, .inl declares⟩
  | listed isNode _ _ _ => exact ⟨_, isNode, .inl rfl⟩
  | parameter isNode _ _ _ _ => exact ⟨_, isNode, .inr rfl⟩

/-- A declared name is nested as deeply as the insides of the declaring node. -/
theorem level (introduces : Introduces node reference) :
    reference.level = node.innerLevel := by
  -- What is between the two is no level.
  have pass : ∀ {place : Place} {kind : NodeKind}, place.kind = .node kind →
      kind.isLevel = false → place.innerLevel = place.level := fun isNode plain => by
    rw [innerLevel_eq isNode, plain]
    rfl
  cases introduces with
  | single _ _ leading => exact level_of_mem_nodes (leadingName?_eq_some leading).1
  | listed _ member isList listed =>
    rw [level_of_mem_nodes listed, pass isList rfl, level_of_mem_nodes member]
  | parameter _ member isParameter found leading =>
    obtain ⟨inside, kind, isNode, declares⟩ := parameterDecl?_eq_some found
    have plain : kind.isLevel = false := by cases kind <;> first | rfl | cases declares
    rw [level_of_mem_nodes (leadingName?_eq_some leading).1, pass isNode plain,
      level_of_mem_nodes inside, pass isParameter rfl, level_of_mem_nodes member]

end Introduces

namespace Assigns

/-- An assigned name lies below the statement. -/
theorem below (assigns : Assigns node reference) : Below reference node := by
  obtain ⟨_, member, _, leading⟩ := assigns
  exact (below_of_leadingName? leading).trans (below_of_mem_nodes member)

/-- An assigned name is nested as deeply as the statement. -/
theorem level (assigns : Assigns node reference) : reference.level = node.level := by
  obtain ⟨isNode, member, isAssignment, leading⟩ := assigns
  rw [level_of_mem_nodes (leadingName?_eq_some leading).1, innerLevel_eq isAssignment]
  rw [if_neg (by decide), level_of_mem_nodes member, innerLevel_eq isNode, if_neg (by decide)]

end Assigns

end Dxl.Place
