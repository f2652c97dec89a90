import Dxl.Proofs.Name.RoundTrip
import Dxl.Proofs.View.Passing

/-! Succession: what a name refers to comes before it, unless both are in one row of names or parameters. -/

namespace Dxl.Place

variable {top place child first node holder reference token definition : Place} {kind : NodeKind}
  {name : String} {clean : Prop}

/-- There are no names in a type, nor in what is passed over. -/
def IsBarren (place : Place) : Prop :=
  place.kind = .node .typeRef ∨ place.kind = .node .skipped

/-- Right below a place, nothing but what is barren comes before a node. -/
def Opens (place first : Place) : Prop :=
  ∀ child ∈ place.nodes, child = first ∨ first.stop ≤ child.start ∨ child.IsBarren

/-- No reference to a name is within a type. -/
theorem not_within_typeRef (proper : place.Proper) (isType : place.kind = .node .typeRef)
    (names : reference.isNameRef = true) (composite : reference.tree.isLeaf = false) :
    ¬ reference.Within place := by
  intro within
  cases proper.eq_of_within_atom isType rfl within composite
  simp [isNameRef, isType, Kind.isNodeWith, NodeKind.isNameRef] at names

/-- No reference to a name is within what is barren. -/
theorem IsBarren.not_within (barren : place.IsBarren) (proper : place.Proper)
    (names : reference.isNameRef = true) (composite : reference.tree.isLeaf = false) :
    ¬ reference.Within place := by
  rcases barren with isType | isSkipped
  · exact not_within_typeRef proper isType names composite
  · rintro (rfl | below)
    · simp [isNameRef, isSkipped, Kind.isNodeWith, NodeKind.isNameRef] at names
    · -- Only types are right below.
      obtain ⟨child, member, within⟩ := below.exists_node composite
      obtain ⟨outer, inner, isOuter, isInner, held⟩ := proper.exists_kinds member
      cases isOuter.symm.trans isSkipped
      rw [beq_iff_eq.mp held] at isInner
      exact not_within_typeRef (proper.of_mem_children (List.mem_filter.mp member).1) isInner names
        composite within

/-- A reference below a place is within the node that the place opens with, or comes after it. -/
theorem Opens.within_or_le (opens : Opens place first) (proper : place.Proper)
    (below : Below reference place) (names : reference.isNameRef = true)
    (composite : reference.tree.isLeaf = false) :
    reference.Within first ∨ first.stop ≤ reference.start := by
  obtain ⟨child, member, within⟩ := below.exists_node composite
  have range := within.range
  rcases opens child member with rfl | after | barren
  · exact .inl within
  · exact .inr (by omega)
  · exact absurd within
      (barren.not_within (proper.of_mem_children (List.mem_filter.mp member).1) names composite)

/-- If only expressions and what is barren are right below a place, it opens with the first expression. -/
theorem opens_of_isExpression (found : place.expression? 0 = some first)
    (each : ∀ child ∈ place.nodes, child.isExpression = true ∨ child.IsBarren) :
    Opens place first := by
  intro child member
  rcases each child member with isExpression | barren
  · -- The first expression ends before the other ones start.
    have among : child ∈ place.expressions := List.mem_filter.mpr ⟨member, isExpression⟩
    have ordered : place.expressions.Pairwise fun left right => left.stop ≤ right.start :=
      place.nodes_pairwise.filter _
    obtain ⟨rest, split⟩ : ∃ rest, place.expressions = first :: rest :=
      List.head?_eq_some_iff.mp (by rw [List.head?_eq_getElem?]; exact found)
    rw [split] at among ordered
    rcases List.mem_cons.mp among with same | later
    · exact .inl same
    · exact .inr (.inl (List.rel_of_pairwise_cons ordered later))
  · exact .inr (.inr barren)

/-- A statement opens with its first expression. -/
theorem opens_of_exprStmt (proper : place.Proper) (isNode : place.kind = .node .exprStmt)
    (found : place.expression? 0 = some first) : Opens place first := by
  refine opens_of_isExpression found fun child member => ?_
  obtain ⟨outer, inner, isOuter, isInner, held⟩ := proper.exists_kinds member
  cases isOuter.symm.trans isNode
  have held : inner.isTerm = true := held
  rw [NodeKind.isTerm, Bool.or_eq_true, beq_iff_eq] at held
  rcases held with operand | rfl
  · exact .inl (isExpression_of_operand isInner operand)
  · exact .inr (.inr isInner)

/-- An assignment opens with its first expression. -/
theorem opens_of_assignment (proper : place.Proper) (formed : place.tree.Formed clean)
    (isNode : place.kind = .node .assignment) (found : place.expression? 0 = some first) :
    Opens place first := by
  refine opens_of_isExpression found fun child member => ?_
  obtain ⟨outer, inner, isOuter, isInner, held⟩ := proper.exists_kinds member
  cases isOuter.symm.trans isNode
  rcases NodeKind.isExpression_of_isPart held with isExpression | rfl | rfl | rfl
  · left
    rw [Place.isExpression, isInner]
    exact isExpression
  · exact .inr (.inl isInner)
  · -- An assignment has no arguments.
    obtain ⟨mark, among⟩ := exists_constituent formed (List.mem_filter.mp member).1 isInner
    exact absurd among
      (Form.argless_of_isCompound rfl (by decide) (forms_of_kind formed isNode) mark)
  · exact .inr (.inr isInner)

/-- After its type, if it has one, a declaration begins with an expression. -/
theorem isExpression_of_isDeclaration {kinds : List NodeKind} (declares : kind.isDeclaration = true)
    (admitted : kind.admits kinds = true) :
    ∀ leading ∈ (kinds.dropWhile (· == .typeRef)).head?, leading.isExpression = true := by
  -- What follows the type of a variable or an array is checked for its own kinds.
  have single {kinds : List NodeKind} (holds : NodeKind.namesVariable kinds = true) :
      ∀ leading ∈ (kinds.dropWhile (· == .typeRef)).head?, leading.isExpression = true := by
    unfold NodeKind.namesVariable at holds
    split at holds <;> first | decide | cases holds
  have array {kinds : List NodeKind} (holds : NodeKind.namesArray kinds = true) :
      ∀ leading ∈ (kinds.dropWhile (· == .typeRef)).head?, leading.isExpression = true := by
    unfold NodeKind.namesArray at holds
    split at holds <;> first | decide | cases holds
  cases kind <;> first | cases declares; done | skip
  case varDecl =>
    simp only [NodeKind.admits] at admitted
    split at admitted
    · decide
    · have untyped := single admitted
      exact untyped
    · exact single admitted
  case arrayDecl =>
    simp only [NodeKind.admits] at admitted
    split at admitted <;>
      · have untyped := array admitted
        exact untyped
  case funcDecl =>
    simp only [NodeKind.admits] at admitted
    split at admitted <;> first | decide | cases admitted

/-- A declaration opens with its first expression. -/
theorem opens_of_isDeclaration (proper : place.Proper) (isNode : place.kind = .node kind)
    (declares : kind.isDeclaration = true) (found : place.expression? 0 = some first) :
    Opens place first := by
  obtain ⟨kinds, mapped, admitted⟩ := proper.nodes isNode
  have leads := isExpression_of_isDeclaration declares admitted
  -- The types come first; the nodes that follow them have the kinds that follow their kinds.
  have split : place.nodes.takeWhile (isA .typeRef) ++ place.nodes.dropWhile (isA .typeRef)
      = place.nodes := List.takeWhile_append_dropWhile
  have rest : (place.nodes.dropWhile (isA .typeRef)).map Place.kind
      = (kinds.dropWhile (· == .typeRef)).map Kind.node := by
    have test : (· == Kind.node .typeRef) ∘ Kind.node = (· == NodeKind.typeRef) := by
      funext kind
      simp
    have same := congrArg (List.dropWhile (· == .node .typeRef)) mapped
    rw [List.dropWhile_map, List.dropWhile_map, test] at same
    exact same
  have types : ∀ child ∈ place.nodes.takeWhile (isA .typeRef), child.kind = .node .typeRef := by
    intro child member
    have isType := List.all_eq_true.mp List.all_takeWhile child member
    simpa [isA] using isType
  have bare : (place.nodes.takeWhile (isA .typeRef)).filter isExpression = [] :=
    List.filter_eq_nil_iff.mpr fun child member => by
      simp [Place.isExpression, types child member, Kind.isNodeWith, NodeKind.isExpression]
  have ordered := place.nodes_pairwise
  rw [expression?, expressions, ← split, List.filter_append, bare, List.nil_append] at found
  rw [← split] at ordered
  cases left : place.nodes.dropWhile (isA .typeRef) with
  | nil => simp [left] at found
  | cons name others =>
    -- What comes after the type begins with the expression.
    have expression : name.isExpression = true := by
      rw [left] at rest
      obtain ⟨inner, more, same, isInner, -⟩ := List.map_eq_cons_iff.mp rest.symm
      rw [Place.isExpression, ← isInner]
      exact leads inner (by rw [same]; rfl)
    rw [left, List.filter_cons_of_pos expression] at found
    cases found
    intro child member
    rw [← split, left] at member
    rcases List.mem_append.mp member with early | late
    · exact .inr (.inr (.inl (types child early)))
    · rcases List.mem_cons.mp late with same | later
      · exact .inl same
      · rw [left] at ordered
        exact .inr (.inl (List.rel_of_pairwise_cons (List.pairwise_append.mp ordered).2.1 later))

/-- A row of names or parameters has a definition in a later member than the one in which there is a reference to it. -/
structure Anticipates (row earlier later reference definition : Place) : Prop where
  isRow : row.kind = .node .nameList ∨ row.kind = .node .paramList
  first : earlier ∈ row.nodes
  second : later ∈ row.nodes
  ordered : earlier.stop ≤ later.start
  uses : reference.Within earlier
  defines : definition.Within later

/-- A reference below a row is in a member before the one that holds a definition, or in that one, or after it. -/
theorem anticipates_or_le {row member : Place}
    (isRow : row.kind = .node .nameList ∨ row.kind = .node .paramList)
    (second : member ∈ row.nodes) (defines : definition.Within member)
    (below : Below reference row) (composite : reference.tree.isLeaf = false) :
    (∃ earlier, Anticipates row earlier member reference definition)
      ∨ reference.Within member ∨ member.stop ≤ reference.start := by
  obtain ⟨earlier, first, uses⟩ := below.exists_node composite
  have range := uses.range
  rcases eq_or_of_pairwise row.nodes_pairwise first second with rfl | before | after
  · exact .inr (.inl uses)
  · exact .inl ⟨earlier, isRow, first, second, before, uses, defines⟩
  · exact .inr (.inr (by omega))

/-- A reference within a node of another kind is below it. -/
theorem below_of_within_of_isNameRef (within : reference.Within place)
    (names : reference.isNameRef = true) (other : place.isNameRef = false) :
    Below reference place := by
  rcases within with rfl | below
  · rw [names] at other
    cases other
  · exact below

/-- A reference within a place that opens with a name is the name or comes after it. -/
theorem Opens.eq_or_le (opens : Opens place holder) (proper : place.Proper)
    (leading : place.leadingName? = some holder) (within : reference.Within place)
    (other : place.isNameRef = false) (names : reference.isNameRef = true)
    (composite : reference.tree.isLeaf = false) :
    reference = holder ∨ holder.stop ≤ reference.start := by
  have below := below_of_within_of_isNameRef within names other
  obtain ⟨member, isName⟩ := leadingName?_eq_some leading
  rcases opens.within_or_le proper below names composite with inner | after
  · exact .inl (eq_of_within_name (proper.of_mem_children (List.mem_filter.mp member).1) isName
      composite inner)
  · exact .inr after

/-- A declaration is no reference to a name. -/
theorem isNameRef_of_isDeclaration (declares : kind.isDeclaration = true) :
    kind.isNameRef = false := by
  cases kind <;> first | rfl | cases declares

/-- A node of another kind is no reference to a name. -/
theorem isNameRef_eq_false (isNode : place.kind = .node kind) (other : kind.isNameRef = false) :
    place.isNameRef = false := by
  rw [isNameRef, isNode]
  exact other

/-- A reference below a node that declares a name is the name or comes after it, unless both are in one row. -/
theorem Introduces.eq_or_le (introduces : Introduces node holder) (proper : node.Proper)
    (isName : holder.isNameRef = true) (defines : definition.Within holder)
    (below : Below reference node) (names : reference.isNameRef = true)
    (composite : reference.tree.isLeaf = false) :
    (∃ row earlier later, row.Within node ∧ Anticipates row earlier later reference definition)
      ∨ reference = holder ∨ holder.stop ≤ reference.start := by
  cases introduces with
  | single isNode declares leading =>
    -- The declaration opens with the very name.
    have opens := opens_of_isDeclaration proper isNode declares
      (Option.eq_some_of_filter_eq_some leading)
    exact .inr (opens.eq_or_le proper leading (.inr below)
      (isNameRef_eq_false isNode (isNameRef_of_isDeclaration declares)) names composite)
  | @listed list _ isNode member isList listed =>
    have isExpression : list.isExpression = true := by
      rw [Place.isExpression, isList]
      rfl
    have inside := (List.mem_filter.mp member).1
    have within := Within.of_mem_children (List.mem_filter.mp listed).1
    have opens := opens_of_isDeclaration proper isNode rfl (expression?_of_isDeclaration proper
      isNode rfl (List.mem_filter.mpr ⟨member, isExpression⟩))
    rcases opens.within_or_le proper below names composite with inList | after
    · -- In the list, only a member before the one that is declared can hold an earlier reference.
      have inner := below_of_within_of_isNameRef inList names (isNameRef_eq_false isList rfl)
      rcases anticipates_or_le (.inl isList) listed defines inner composite with
        ⟨earlier, anticipates⟩ | inHolder | after
      · exact .inl ⟨list, earlier, holder, .of_mem_children inside, anticipates⟩
      · exact .inr (.inl (eq_of_within_name (proper.of_within
          (within.trans (.of_mem_children inside))) isName composite inHolder))
      · exact .inr (.inr after)
    · have := within.range
      exact .inr (.inr (by omega))
  | @parameter parameter decl _ isNode member isParameter found leading =>
    obtain ⟨isDecl, kind, declKind, declares⟩ := parameterDecl?_eq_some found
    have inside := (List.mem_filter.mp member).1
    have holds : holder.Within parameter :=
      .inr ((below_of_leadingName? leading).trans (below_of_mem_nodes isDecl))
    rcases anticipates_or_le (.inr isNode) member (defines.trans holds) below composite with
      ⟨earlier, anticipates⟩ | inParameter | after
    · exact .inl ⟨node, earlier, parameter, .refl node, anticipates⟩
    · -- A parameter holds nothing but what it declares.
      have inner := below_of_within_of_isNameRef inParameter names
        (isNameRef_eq_false isParameter rfl)
      have parameterProper := proper.of_mem_children inside
      have declProper := parameterProper.of_mem_children (List.mem_filter.mp isDecl).1
      obtain ⟨only, among, inDecl⟩ := inner.exists_node composite
      cases eq_of_mem_parameter parameterProper isParameter among isDecl
      have opens := opens_of_isDeclaration declProper declKind declares
        (Option.eq_some_of_filter_eq_some leading)
      exact .inr (opens.eq_or_le declProper leading inDecl
        (isNameRef_eq_false declKind (isNameRef_of_isDeclaration declares)) names composite)
    · have := holds.range
      exact .inr (.inr (by omega))

/-- A reference below a statement that assigns to a name is the name or comes after it. -/
theorem eq_or_le_of_assigns (assigns : node.assigns? name = some definition)
    (uses : holder.use? name = some definition) (proper : node.Proper)
    (formed : node.tree.Formed clean) (below : Below reference node)
    (names : reference.isNameRef = true) (composite : reference.tree.isLeaf = false) :
    reference = holder ∨ holder.stop ≤ reference.start := by
  obtain ⟨assignment, other, isNode, first, isAssignment, leading, same⟩ := exists_assignment assigns
  cases eq_of_use? same uses
  have member := (List.mem_filter.mp (List.mem_filter.mp (List.mem_of_getElem? first)).1).1
  have inner := proper.of_mem_children member
  -- The assignment opens the statement, and the name that leads it opens the assignment.
  rcases (opens_of_exprStmt proper isNode first).within_or_le proper below names composite with
    within | after
  · have opens := opens_of_assignment inner (formed_of_mem_children formed member) isAssignment
      (Option.eq_some_of_filter_eq_some leading)
    exact opens.eq_or_le inner leading within (isNameRef_eq_false isAssignment rfl) names composite
  · have := Within.range (.inr (below_of_leadingName? leading))
    exact .inr (by omega)

/-- What is among the earlier nodes of a place is around it, or ends before it starts. -/
theorem below_or_le_of_mem_previous (topmost : top.above = []) (inside : Below place top)
    (composite : place.tree.isLeaf = false) (member : node ∈ place.previous) :
    Below place node ∨ node.stop ≤ place.start := by
  obtain ⟨earlier, outer, path, leads⟩ :=
    (mem_previous_iff topmost (.inr inside) composite).mp member
  have range := leads.within.range
  rcases leads.first with rfl | before
  · rcases leads.within with rfl | below
    · omega
    · exact .inl below
  · exact .inr (by omega)

/-- The definition of a reference does not come after it, unless both are in one row of names or parameters. -/
theorem start_le_iff (rooted : top.Rooted) (formed : top.tree.Formed clean)
    (inside : Below reference top) (uses : reference.use? name = some token)
    (defined : reference.definitionOf? name = some definition) :
    definition.start ≤ token.start ↔ ¬ ∃ row earlier later, row.Within top
      ∧ Anticipates row earlier later reference definition := by
  have names := (use?_eq_some_iff.mp uses).1
  have proper := rooted.proper.of_within (.inr inside)
  have composite := isLeaf_of_isNameRef proper names
  have range := stop_of_use? proper uses
  constructor
  · -- The member with the reference ends before the one with the definition starts.
    rintro notAfter ⟨row, earlier, later, -, anticipates⟩
    have := anticipates.uses.range
    have := anticipates.defines.range
    have := anticipates.ordered
    omega
  · intro apart
    have resolves := resolves_of_definitionOf? rooted inside names defined
    obtain ⟨holder, holderInside, holds⟩ := resolves.exists_holder rooted inside names
    have holderRange := stop_of_use? (rooted.proper.of_within (.inr holderInside)) holds
    -- What holds the definition is the reference or comes before it.
    have order : reference = holder ∨ holder.stop ≤ reference.start := by
      cases resolves with
      | @declared node _ member declares held same _ =>
        cases eq_of_use? same holds
        rcases below_or_le_of_mem_previous rooted.topmost inside composite member with
          below | before
        · have within : node.Within top := within_of_below rooted.topmost inside below
          have first := (use?_eq_some_iff.mp holds).2.1
          have defines : definition.Within holder :=
            .of_mem_children (List.mem_filter.mp (List.mem_of_find?_eq_some first)).1
          rcases held.eq_or_le (rooted.proper.of_within within) (use?_eq_some_iff.mp holds).1
            defines below names composite with ⟨row, earlier, later, inNode, anticipates⟩ | order
          · exact absurd ⟨row, earlier, later, inNode.trans within, anticipates⟩ apart
          · exact order
        · have := Within.range (.inr held.below)
          exact .inr (by omega)
      | @assigned node _ member assigns held same _ =>
        cases eq_of_use? same holds
        rcases below_or_le_of_mem_previous rooted.topmost inside composite member with
          below | before
        · have within : node.Within top := within_of_below rooted.topmost inside below
          -- An assignment names its target first, and no row is around what is assigned.
          exact eq_or_le_of_assigns assigns holds (rooted.proper.of_within within)
            (formed_of_within formed within) below names composite
        · have := Within.range (.inr held.below)
          exact .inr (by omega)
    rcases order with rfl | before
    · rw [holds] at uses
      cases uses
      exact Nat.le_refl _
    · omega

end Dxl.Place
