import Dxl.Proofs.Place.Ranges
import Dxl.Proofs.View.Passing

/-! Functions: every function that is declared at a place or below it is reached, in the order of the text. -/

namespace Dxl

namespace NodeKind

/-- Nodes that a function can be declared in or by. -/
def isHost : NodeKind → Bool
  | .root | .block | .ifStmt | .whileStmt | .forStmt | .forInStmt | .funcDecl | .paramList
  | .param => true
  | _ => false

/-- No function is declared in a part of an expression. -/
theorem isHost_of_isPart {kind : NodeKind} (part : kind.isPart = true) : kind.isHost = false := by
  cases kind <;> first | rfl | cases part

/-- What is viewed as an expression bears no function. -/
theorem isHost_of_isExpression {kind : NodeKind} (expression : kind.isExpression = true) :
    kind.isHost = false := by
  cases kind <;> first | rfl | cases expression

/-- What bears a function is held only by what does so too. -/
theorem isHost_of_mayHold {outer inner : NodeKind} (held : outer.mayHold inner = true)
    (host : inner.isHost = true) : outer.isHost = true := by
  -- What holds nothing but parts of expressions holds no host.
  have part (isPart : inner.isPart = true) : outer.isHost = true := by
    rw [isHost_of_isPart isPart] at host
    cases host
  cases outer
  case root | block | ifStmt | whileStmt | forStmt | forInStmt | funcDecl | paramList | param => rfl
  case exprStmt => exact part (isPart_of_isTerm held)
  -- All that the others hold are names, types, expressions and arguments.
  case varDecl | arrayDecl =>
    simp only [mayHold, Bool.or_eq_true, beq_iff_eq] at held
    rcases held with ((rfl | rfl) | rfl) | rfl <;> cases host
  case argList | nameList =>
    simp only [mayHold, Bool.or_eq_true, beq_iff_eq] at held
    rcases held with rfl | rfl <;> cases host
  case returnStmt | arg | skipped =>
    obtain rfl := beq_iff_eq.mp held
    cases host
  all_goals first | exact part held | cases held

/-- What bears a function is viewed as a statement. -/
theorem isStatement_of_isHost {kind : NodeKind} (host : kind.isHost = true) :
    kind.isStatement = true := by
  cases kind <;> first | rfl | cases host

end NodeKind

namespace Place

open Form

variable {place child part inner outer : Place} {kind : NodeKind} {clean : Prop}

/-- Whether a function can be declared in or by the place. -/
def isHost (place : Place) : Bool := place.kind.isNodeWith NodeKind.isHost

/-- A place that is known to be of some kind hosts functions as that kind does. -/
theorem isHost_of_kind {kind : Kind} (isKind : place.kind = kind) :
    place.isHost = kind.isNodeWith NodeKind.isHost := by
  rw [isHost, isKind]

/-- A place that is of one kind of node hosts functions as that kind does. -/
theorem isHost_of_isA (isKind : place.isA kind = true) : place.isHost = kind.isHost :=
  isHost_of_kind (beq_iff_eq.mp isKind)

/-- An expression hosts no function. -/
theorem isHost_of_isExpression (expression : place.isExpression = true) :
    place.isHost = false := by
  rw [isHost]
  rw [isExpression] at expression
  cases isKind : place.kind with
  | token kind => rfl
  | node kind =>
    rw [isKind] at expression
    exact NodeKind.isHost_of_isExpression expression

/-- A host is viewed as a statement. -/
theorem isStatement_of_isHost (host : place.isHost = true) : place.isStatement = true := by
  rw [isHost] at host
  rw [isStatement]
  cases isKind : place.kind with
  | token kind =>
    rw [isKind] at host
    cases host
  | node kind =>
    rw [isKind] at host
    exact NodeKind.isStatement_of_isHost host

/-- Hosts right below a place are nodes. -/
theorem mem_nodes_of_isHost (proper : place.Proper) (member : child ∈ place.children)
    (host : child.isHost = true) : child ∈ place.nodes := by
  refine mem_nodes_iff.mpr ⟨member, ?_⟩
  cases isKind : child.kind with
  | token kind =>
    rw [isHost_of_kind isKind] at host
    cases host
  | node kind =>
    obtain ⟨children, same⟩ := (proper.of_mem_children member).exists_children isKind
    rw [same]
    rfl

/-- What is right above a host is a host. -/
theorem isHost_of_mem_children (proper : place.Proper) (member : child ∈ place.children)
    (host : child.isHost = true) : place.isHost = true := by
  obtain ⟨outer, inner, isOuter, isInner, held⟩ :=
    proper.exists_kinds (mem_nodes_of_isHost proper member host)
  rw [isHost_of_kind isInner] at host
  rw [isHost_of_kind isOuter]
  exact NodeKind.isHost_of_mayHold held host

/-- Everything around a host is a host. -/
theorem isHost_of_within (proper : outer.Proper) (within : inner.Within outer)
    (host : inner.isHost = true) : outer.isHost = true := by
  rcases within with rfl | below
  · exact host
  · -- From the host upwards, each place is right above a host.
    induction below with
    | child member => exact isHost_of_mem_children proper member host
    | deeper member below ih =>
      exact ih proper (isHost_of_mem_children (proper.of_within (.inr below)) member host)

/-- The content of a statement hosts no function. -/
theorem filter_content (found : Option Place) :
    (found.bind content?).toList.filter isHost = [] := by
  rw [List.filter_eq_nil_iff]
  intro part member
  -- The content of an expression statement is its expression, and no other statement has any.
  obtain ⟨statement, -, content⟩ := Option.bind_eq_some_iff.mp (Option.mem_toList.mp member)
  unfold content? at content
  split at content
  · have expression := (List.mem_filter.mp (List.mem_of_getElem? content)).2
    simp [isHost_of_isExpression expression]
  · cases content

/-- Those of several places that are there are the first, if it is there, and those of the others. -/
theorem filterMap_id_cons (first : Option Place) (rest : List (Option Place)) :
    (first :: rest).filterMap id = first.toList ++ rest.filterMap id := by
  cases first <;> rfl

/-- The hosts right below a place are among the statements there. -/
theorem filter_statements (place : Place) :
    place.statements.filter isHost = place.nodes.filter isHost := by
  rw [statements, List.filter_filter]
  refine List.filter_congr fun child _ => ?_
  cases host : child.isHost with
  | true => rw [isStatement_of_isHost host]; rfl
  | false => rfl

/-- Expression statements host no function. -/
theorem filter_clauses {clauses : List Place}
    (isExpr : ∀ clause ∈ clauses, clause.isA .exprStmt = true) : clauses.filter isHost = [] := by
  rw [List.filter_eq_nil_iff]
  intro clause member
  rw [isHost_of_isA (isExpr clause member)]
  exact Bool.false_ne_true

/-- A loop with a condition looks at the host that it repeats. -/
theorem filter_shown_whileStmt (proper : place.Proper) (formed : place.tree.Formed clean)
    (isNode : place.kind = .node .whileStmt) :
    place.shown.filter isHost = place.nodes.filter isHost := by
  -- The condition is looked at through its content, which is no host, and neither is it.
  obtain ⟨condition, isExpr, whole, -⟩ := statements_whileStmt proper formed isNode
  have header : condition.toList.filter isHost = [] :=
    filter_clauses fun clause member => isExpr clause (Option.mem_toList.mp member)
  have content : (place.contentOf? 0).toList.filter isHost = [] := filter_content _
  rw [← filter_statements, whole, shown_eq isNode, shownOf]
  simp only [filterMap_id_cons, List.filterMap_nil, List.append_nil, List.filter_append, header,
    content]

/-- A choice looks at the hosts in its branches. -/
theorem filter_shown_ifStmt (proper : place.Proper) (formed : place.tree.Formed clean)
    (isNode : place.kind = .node .ifStmt) :
    place.shown.filter isHost = place.nodes.filter isHost := by
  obtain ⟨condition, body, isExpr, whole, last⟩ := statements_ifStmt proper formed isNode
  have content : (place.contentOf? 0).toList.filter isHost = [] := filter_content _
  have header : condition.isHost = false := isHost_of_isA isExpr
  -- The statement after the condition is the first branch, for without one there is no other.
  have second : place.statement? 1 = body := by
    rw [statement?, whole]
    cases body with
    | none => rw [last rfl]; rfl
    | some branch => rfl
  rw [← filter_statements, whole, List.filter_cons_of_neg (by simp [header]), shown_eq isNode,
    shownOf, second]
  simp only [filterMap_id_cons, List.filterMap_nil, List.append_nil, List.filter_append, content,
    List.nil_append]

/-- A counting loop looks at the host that it repeats. -/
theorem filter_shown_forStmt (proper : place.Proper) (formed : place.tree.Formed clean)
    (isNode : place.kind = .node .forStmt) :
    place.shown.filter isHost = place.nodes.filter isHost := by
  obtain ⟨whole, -, isExpr⟩ := statements_forStmt proper formed isNode
  have header := filter_clauses isExpr
  have clause (n : Nat) : (place.clause? n).toList.filter isHost = [] := filter_content _
  rw [← filter_statements, whole, shown_eq isNode, shownOf]
  simp only [filterMap_id_cons, List.filterMap_nil, List.append_nil, List.filter_append, header,
    clause, List.nil_append]

/-- A loop over members looks at the host that it repeats, if there are no errors. -/
theorem filter_shown_forInStmt (proper : place.Proper) (formed : place.tree.Formed clean)
    (spotless : clean) (isNode : place.kind = .node .forInStmt) :
    place.shown.filter isHost = place.nodes.filter isHost := by
  obtain ⟨item, body, whole, isExpr, -, last⟩ := statements_forInStmt proper formed isNode
  -- Only with an error something else can come after the keyword.
  have last : place.statementAfter? (.keyword .doWord) = body :=
    last.resolve_right fun flawed => flawed.1 spotless
  have header := filter_clauses isExpr
  have content : (place.contentOf? 0).toList.filter isHost = [] := filter_content _
  have after (token : TokenKind) : (place.contentAfter? token).toList.filter isHost = [] :=
    filter_content _
  rw [← filter_statements, whole, List.filter_append, header, shown_eq isNode, shownOf, last]
  simp only [filterMap_id_cons, List.filterMap_nil, List.append_nil, List.filter_append, content,
    after, List.nil_append]

/-- The declaration of a function looks at its parameters and its body. -/
theorem filter_shown_funcDecl (proper : place.Proper) (isNode : place.kind = .node .funcDecl) :
    place.shown.filter isHost = place.nodes.filter isHost := by
  -- The type is no host, so only the parameters and the body count.
  have type : place.declaredType?.toList.filter isHost = [] := by
    rw [List.filter_eq_nil_iff]
    intro type member
    have isType := (Option.filter_eq_some_iff.mp (Option.mem_toList.mp member)).2
    rw [isHost_of_isA isType]
    exact Bool.false_ne_true
  rw [shown_eq isNode, shownOf]
  simp only [filterMap_id_cons, List.filterMap_nil, List.append_nil, List.filter_append, type,
    List.nil_append, nodeOf?]
  -- The nodes are a type, a name, parameters and a body, as far as they are there.
  obtain ⟨kinds, mapped, admitted⟩ := proper.nodes isNode
  simp only [NodeKind.admits] at admitted
  split at admitted <;> first | cases admitted; done | skip
  all_goals
    simp only [List.map_cons, List.map_nil, List.map_eq_cons_iff, List.map_eq_nil_iff] at mapped
  · obtain ⟨type, _, whole, isType, rfl⟩ := mapped
    simp [whole, isA, isType, isHost_of_kind, Kind.isNodeWith, NodeKind.isHost]
  · obtain ⟨type, _, whole, isType, name, _, rfl, isName, rfl⟩ := mapped
    simp [whole, isA, isType, isName, isHost_of_kind, Kind.isNodeWith, NodeKind.isHost]
  · obtain ⟨type, _, whole, isType, name, _, rfl, isName, list, _, rfl, isList, rfl⟩ := mapped
    simp [whole, isA, isType, isName, isList, isHost_of_kind, Kind.isNodeWith, NodeKind.isHost]
  · obtain ⟨type, _, whole, isType, name, _, rfl, isName, body, _, rfl, isBody, rfl⟩ := mapped
    simp [whole, isA, isType, isName, isBody, isHost_of_kind, Kind.isNodeWith, NodeKind.isHost]
  · obtain ⟨type, _, whole, isType, name, _, rfl, isName, list, _, rfl, isList, body, _, rfl, isBody,
      rfl⟩ := mapped
    simp [whole, isA, isType, isName, isList, isBody, isHost_of_kind, Kind.isNodeWith,
      NodeKind.isHost]

/-- A parameter looks at what it declares. -/
theorem filter_shown_param (proper : place.Proper) (formed : place.tree.Formed clean)
    (spotless : clean) (isNode : place.kind = .node .param) :
    place.shown.filter isHost = place.nodes.filter isHost := by
  -- A parameter holds nothing or one declaration, and what was skipped only with an error.
  have same : place.shown = place.nodes := by
    rw [shown_eq isNode, shownOf, parameterDecl?]
    obtain ⟨kinds, mapped, admitted⟩ := proper.nodes isNode
    simp only [NodeKind.admits] at admitted
    split at admitted
    · rw [List.map_eq_nil_iff.mp mapped]
      rfl
    · obtain ⟨child, single, isChild⟩ := List.map_eq_singleton_iff.mp mapped
      have member : child ∈ place.children :=
        (List.mem_filter.mp (single ▸ List.mem_singleton_self child : child ∈ place.nodes)).1
      have notSkipped := ne_skipped (formed_of_mem_children formed member) spotless isChild
      have declares := (Bool.or_eq_true_iff.mp admitted).resolve_right
        fun skipped => notSkipped (beq_iff_eq.mp skipped)
      rw [single, List.find?_cons_of_pos]
      · rfl
      · rename_i only
        cases only <;> first | cases declares; done | simp [isA, isChild]
    · cases admitted
  rw [same]

/-- Without errors, the hosts right below a place are looked at, in their order, and no others. -/
theorem filter_shown (proper : place.Proper) (formed : place.tree.Formed clean) (spotless : clean) :
    place.shown.filter isHost = place.nodes.filter isHost := by
  cases host : place.isHost with
  | false =>
    -- Nothing that hosts a function is within a place that does not.
    have none {inner : Place} (within : inner.Within place) : inner.isHost ≠ true := by
      intro hosts
      rw [isHost_of_within proper within hosts] at host
      cases host
    rw [List.filter_eq_nil_iff.mpr fun part member => none ?_, List.filter_eq_nil_iff.mpr
      fun child member => none (.inr (below_of_mem_nodes member))]
    obtain ⟨holder, shows⟩ := exists_shows_of_mem_shown member
    exact shows.within.trans (.inr (below_of_mem_nodes shows.mem_nodes))
  | true =>
    cases isKind : place.kind with
    | token kind =>
      rw [isHost_of_kind isKind] at host
      cases host
    | node kind =>
      rw [isHost_of_kind isKind] at host
      cases kind
      case root | block =>
        rw [shown_eq isKind, shownOf]
        exact place.filter_statements
      case ifStmt => exact filter_shown_ifStmt proper formed isKind
      case whileStmt => exact filter_shown_whileStmt proper formed isKind
      case forStmt => exact filter_shown_forStmt proper formed isKind
      case forInStmt => exact filter_shown_forInStmt proper formed spotless isKind
      case funcDecl => exact filter_shown_funcDecl proper isKind
      case param => exact filter_shown_param proper formed spotless isKind
      case paramList =>
        -- A list of parameters holds nothing else.
        have all : place.nodesOf .param = place.nodes := by
          rw [nodesOf, List.filter_eq_self]
          intro child member
          obtain ⟨outer, inner, isOuter, isInner, held⟩ := proper.exists_kinds member
          cases isOuter.symm.trans isKind
          simp [isA, isInner, beq_iff_eq.mp held]
        rw [shown_eq isKind, shownOf, all]
      all_goals cases host

/-- There is no function within a place that hosts none. -/
theorem filter_elements_of_not_isHost (proper : place.Proper) (host : place.isHost = false) :
    place.elements.filter (isA .funcDecl) = [] := by
  rw [List.filter_eq_nil_iff]
  intro inner member isFunction
  have around := isHost_of_within proper (mem_elements_iff.mp member) (isHost_of_isA isFunction)
  rw [host] at around
  cases around

/-- What is collected from several places comes from those that pass a test, if the others give nothing. -/
theorem flatMap_filter {places : List Place} {test : Place → Bool} {collect : Place → List Place}
    (none : ∀ other ∈ places, test other = false → collect other = []) :
    (places.filter test).flatMap collect = places.flatMap collect := by
  -- A place that does not pass gives nothing, so it can be left out.
  induction places with
  | nil => rfl
  | cons first rest ih =>
    have others := ih fun other member => none other (List.mem_cons_of_mem first member)
    rw [List.filter_cons, List.flatMap_cons, ← others]
    cases passes : test first with
    | true => rfl
    | false => rw [none first List.mem_cons_self passes]; rfl

/-- The hosts among the children of a place are nodes. -/
theorem filter_children (proper : place.Proper) :
    place.children.filter isHost = place.nodes.filter isHost := by
  rw [nodes, List.filter_filter]
  refine List.filter_congr fun child member => ?_
  cases host : child.isHost with
  | true => rw [Bool.true_and, (List.mem_filter.mp (mem_nodes_of_isHost proper member host)).2]
  | false => rfl

/-- Without errors, the functions that are reached from a place are those that are declared within it, each once and in the order of the text. -/
theorem filter_reached (proper : place.Proper) (formed : place.tree.Formed clean)
    (spotless : clean) :
    place.reached.filter (isA .funcDecl) = place.elements.filter (isA .funcDecl) := by
  induction place using induct_parts with
  | step place ih =>
    -- Each part collects the functions within itself, by induction.
    have looked {part : Place} (member : part ∈ place.shown) :
        part.reached.filter (isA .funcDecl) = part.elements.filter (isA .funcDecl) := by
      obtain ⟨part, among, rfl⟩ := List.mem_map.mp member
      exact ih part among (proper.of_within (.inr part.2)) (formed_of_within formed (.inr part.2))
    -- Only hosts matter, and they are looked at just as they stand in the text.
    have further : (place.shown.flatMap fun part => part.reached.filter (isA .funcDecl))
        = place.children.flatMap fun child => child.elements.filter (isA .funcDecl) := by
      calc (place.shown.flatMap fun part => part.reached.filter (isA .funcDecl))
          = place.shown.flatMap fun part => part.elements.filter (isA .funcDecl) :=
            List.flatMap_congr fun part member => looked member
        _ = (place.shown.filter isHost).flatMap fun part => part.elements.filter (isA .funcDecl) :=
            (flatMap_filter fun part member =>
              filter_elements_of_not_isHost (proper_of_mem_shown proper member)).symm
        _ = (place.children.filter isHost).flatMap fun child =>
              child.elements.filter (isA .funcDecl) := by
            rw [filter_shown proper formed spotless, filter_children proper]
        _ = place.children.flatMap fun child => child.elements.filter (isA .funcDecl) :=
            flatMap_filter fun child member =>
              filter_elements_of_not_isHost (proper.of_mem_children member)
    rw [reached_eq, elements_eq, List.filter_cons, List.filter_cons, List.filter_flatMap,
      List.filter_flatMap, ← further, shown, List.flatMap_map]

end Place

end Dxl
