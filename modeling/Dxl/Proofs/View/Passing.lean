import Dxl.Proofs.View.Apart

/-! Passing over: which expressions are never looked at, and that everything else with a name is. -/

namespace Dxl

/-- How many expressions a node of the given kind looks at, if it looks at the first ones whatever they are. -/
def NodeKind.shownExpressions? : NodeKind → Option Nat
  | .exprStmt | .grouping | .cast | .prefixed | .postfixed => some 1
  | .arrow | .assignment | .binary | .comparison | .equality | .property | .logical | .range
  | .concat | .shift => some 2
  | .ternary => some 3
  | _ => none

/-- Items are viewed as statements, unless they are a qualifier or a token that is passed over. -/
theorem NodeKind.isStatement_of_isItem {kind : NodeKind} (item : kind.isItem = true) :
    kind.isStatement = true ∨ kind = .ignored ∨ kind = .skipped := by
  cases kind <;> first | exact .inl rfl | exact .inr (.inl rfl) | exact .inr (.inr rfl) | cases item

/-- Parts of expressions are viewed as expressions, unless they are a type, arguments or a token that is passed over. -/
theorem NodeKind.isExpression_of_isPart {kind : NodeKind} (part : kind.isPart = true) :
    kind.isExpression = true ∨ kind = .typeRef ∨ kind = .argList ∨ kind = .skipped := by
  cases kind <;> first | exact .inl rfl | cases part; done | simp

namespace Form

variable {clean : Prop} {constituents : List Constituent}

/-- Constituents among which there are no arguments. -/
def Argless (constituents : List Constituent) : Prop :=
  ∀ first, Constituent.node .argList first ∉ constituents

/-- Several portions are without arguments if each of them is. -/
theorem argless_append {left right : List Constituent} :
    Argless (left ++ right) ↔ Argless left ∧ Argless right := by
  simp [Argless, not_or, forall_and]

/-- A token is no argument. -/
theorem argless_token_cons {kind : TokenKind} :
    Argless (.token kind :: constituents) ↔ Argless constituents := by
  simp [Argless]

/-- A node of another kind is no argument. -/
theorem argless_node_cons {kind : NodeKind} {first : Option TokenKind} (other : kind ≠ .argList) :
    Argless (.node kind first :: constituents) ↔ Argless constituents := by
  simp [Argless, other.symm]

/-- An operand is no list of arguments. -/
theorem ne_argList_of_isOperand {kind : NodeKind} (operand : kind.isOperand = true) :
    kind ≠ .argList := by
  rintro rfl
  cases operand

/-- What an expression leaves is no list of arguments. -/
theorem argless_operand (operands : Operand clean constituents) : Argless constituents := by
  cases operands with
  | missing | empty | skipped => simp [Argless]
  | chain first chain =>
    obtain ⟨operand, beside⟩ := chain
    refine (argless_node_cons (ne_argList_of_isOperand operand)).mpr ?_
    -- Every group beside the operand is an operand too.
    clear operand
    induction beside with
    | none => simp [Argless]
    | more _ made _ ih => exact (argless_node_cons (ne_argList_of_isOperand made)).mpr ih

/-- A token that may be left out is no list of arguments. -/
theorem argless_needed {kind : TokenKind} (needed : Needed clean kind constituents) :
    Argless constituents := by
  cases needed <;> simp [Argless]

/-- Two operands with a token between them are no list of arguments. -/
theorem argless_joined {operator : TokenKind → Prop}
    (joined : Joined clean operator constituents) : Argless constituents := by
  obtain ⟨_, left, _, right⟩ := joined
  rw [argless_node_cons (ne_argList_of_isOperand left), argless_token_cons]
  exact argless_operand right

/-- Of the compounds, only a call has a list of arguments. -/
theorem argless_of_isCompound {kind : NodeKind} (compound : kind.isCompound = true)
    (other : kind ≠ .call) (forms : kind.Forms clean constituents) : Argless constituents := by
  -- Each compound lists its constituents, none of which is a list of arguments outside of a call.
  cases kind <;> first | cases compound; done | skip
  case call => exact absurd rfl other
  case cast =>
    cases forms with
    | before _ operand close =>
      rw [argless_token_cons, argless_node_cons (by decide), argless_append]
      exact ⟨argless_operand operand, argless_needed close⟩
    | after _ _ operand =>
      rw [argless_node_cons (ne_argList_of_isOperand operand)]
      simp [Argless]
  case grouping =>
    obtain ⟨operand, close⟩ := forms
    rw [argless_token_cons, argless_append]
    exact ⟨argless_operand operand, argless_needed close⟩
  case index =>
    obtain ⟨_, first, second, slice, close⟩ := forms
    rw [argless_node_cons (ne_argList_of_isOperand first), argless_token_cons, argless_append,
      argless_append]
    refine ⟨⟨argless_operand second, ?_⟩, argless_needed close⟩
    cases slice with
    | absent => simp [Argless]
    | given operand => exact argless_token_cons.mpr (argless_operand operand)
  case postfixed =>
    obtain ⟨_, _, _, _, operand, -, rfl⟩ := forms
    rw [argless_node_cons (ne_argList_of_isOperand operand)]
    simp [Argless]
  case prefixed =>
    obtain ⟨_, _, -, operand, rfl⟩ := forms
    exact argless_token_cons.mpr (argless_operand operand)
  case concat =>
    obtain ⟨_, left, right⟩ := forms
    exact (argless_node_cons (ne_argList_of_isOperand left)).mpr (argless_operand right)
  case ternary =>
    cases forms with
    | cut _ first second =>
      rw [argless_node_cons (ne_argList_of_isOperand first), argless_token_cons]
      exact argless_operand second
    | whole _ first second third =>
      rw [argless_node_cons (ne_argList_of_isOperand first), argless_token_cons, argless_append,
        argless_token_cons]
      exact ⟨argless_operand second, argless_operand third⟩
  all_goals exact argless_joined forms

end Form

namespace Place

open Form

/-- What is passed over right below a place: a value among names or items, an operand that is called or indexed unless it is a name, and any expression after as many as are looked at. -/
def passedOver (place : Place) : List Place :=
  match place.kind with
  | .token _ => []
  | .node .argList | .node .nameList => place.nodesOf .exprStmt
  | .node .call => place.expressions.filter fun child => !child.isNameRef
  | .node .index =>
    (place.expressions.take 1).filter (fun child => !child.isNameRef) ++ place.expressions.drop 3
  | .node kind =>
    match kind.shownExpressions? with
    | some count => place.expressions.drop count
    | none => []

/-- Why a node right below a place does not get lost: it is looked at, or what it consists of is, or it is a name that stands out by itself, or there is no name in it; else it is passed over. -/
inductive Accounts (place : Place) : Place → Prop
  | shown {child : Place} : child ∈ place.shown → Accounts place child
  | content {child : Place} : child.isA .exprStmt = true →
    (∀ part, child.content? = some part → part ∈ place.shown) → Accounts place child
  | name {child : Place} : place.leadingName? = some child →
    (place.kind = .node .funcDecl ∨ place.kind = .node .call) → Accounts place child
  | names {child : Place} : child.isA .nameList = true →
    (∀ name ∈ child.nodes, name.isNameRef = true → name ∈ place.shown) → Accounts place child
  | silent {child : Place} : (child.isA .typeRef = true ∨ child.isA .ignored = true) →
    Accounts place child
  | passedOver {child : Place} : child ∈ place.passedOver → Accounts place child

variable {place child part : Place} {kind inner : NodeKind} {clean : Prop}

/-- What is looked at from a node of its kind is accounted for. -/
theorem accounts_of_shownOf (isNode : place.kind = .node kind)
    (among : child ∈ place.shownOf kind) : place.Accounts child :=
  .shown (shown_eq isNode ▸ among)

/-- Without errors no token is passed over. -/
theorem ne_skipped (formed : place.tree.Formed clean) (spotless : clean)
    (isNode : place.kind = .node kind) : kind ≠ .skipped := by
  rintro rfl
  exact forms_of_kind formed isNode spotless

/-- A numbered member is among the first few or among the rest. -/
theorem numbered_or_mem_drop {places : List Place} (member : child ∈ places) (count : Nat) :
    (∃ n < count, places[n]? = some child) ∨ child ∈ places.drop count := by
  obtain ⟨n, numbered⟩ := List.mem_iff_getElem?.mp member
  by_cases early : n < count
  · exact .inl ⟨n, early, numbered⟩
  · refine .inr (List.mem_iff_getElem?.mpr ⟨n - count, ?_⟩)
    rw [List.getElem?_drop, Nat.add_sub_cancel' (Nat.le_of_not_lt early), numbered]

/-- Of the nodes that look at a number of expressions, all but those are passed over. -/
theorem accounts_of_expression (isNode : place.kind = .node kind) {count : Nat}
    (shows : kind.shownExpressions? = some count) (member : child ∈ place.expressions) :
    place.Accounts child := by
  rcases numbered_or_mem_drop member count with ⟨n, early, numbered⟩ | late
  · -- Its number is small enough for the node to ask for it.
    have found : place.expression? n = some child := numbered
    refine accounts_of_shownOf isNode ?_
    cases kind <;> cases shows <;> interval_cases n <;> simp [shownOf, found]
  · -- It comes after as many expressions as the node looks at.
    refine .passedOver ?_
    rw [passedOver, isNode]
    cases kind <;> cases shows <;> exact late

/-- In an expression, the nodes other than types and arguments are expressions. -/
theorem isExpression_of_mem_nodes (proper : place.Proper) (formed : place.tree.Formed clean)
    (spotless : clean) (isNode : place.kind = .node kind)
    (compound : kind.isCompound = true) (member : child ∈ place.nodes) :
    child ∈ place.expressions ∨ child.isA .typeRef = true
      ∨ kind = .call ∧ child.isA .argList = true := by
  obtain ⟨outer, inner, isOuter, isInner, held⟩ := proper.exists_kinds member
  obtain rfl : outer = kind := Kind.node.inj (isOuter.symm.trans isNode)
  have part : inner.isPart = true := by
    cases outer <;> first | exact held | cases compound
  have inside := (List.mem_filter.mp member).1
  -- Its kind says that it is an expression, a type, arguments, or a token that is passed over.
  rcases NodeKind.isExpression_of_isPart part with isExpression | rfl | rfl | rfl
  · refine .inl (List.mem_filter.mpr ⟨member, ?_⟩)
    rw [Place.isExpression, isInner]
    exact isExpression
  · exact .inr (.inl (by simp [isA, isInner]))
  · refine .inr (.inr ⟨by_contra fun other => ?_, by simp [isA, isInner]⟩)
    -- Arguments stand in no other compound than a call.
    obtain ⟨first, among⟩ := exists_constituent formed inside isInner
    exact argless_of_isCompound compound other (forms_of_kind formed isNode) first among
  · exact absurd rfl (ne_skipped (formed_of_mem_children formed inside) spotless isInner)

/-- A numbered statement whose content is looked at is accounted for. -/
theorem accounts_of_contentOf? {n : Nat} (numbered : place.statement? n = some child)
    (isExpr : child.isA .exprStmt = true)
    (looks : ∀ part, place.contentOf? n = some part → part ∈ place.shown) :
    place.Accounts child :=
  .content isExpr fun part content => looks part (by rw [contentOf?, numbered, Option.bind_some, content])

/-- A statement after a token whose content is looked at is accounted for. -/
theorem accounts_of_contentAfter? {token : TokenKind}
    (after : place.statementAfter? token = some child) (isExpr : child.isA .exprStmt = true)
    (looks : ∀ part, place.contentAfter? token = some part → part ∈ place.shown) :
    place.Accounts child :=
  .content isExpr fun part content => looks part (by rw [contentAfter?, after, Option.bind_some, content])

/-- In a loop with a condition, everything is looked at. -/
theorem accounts_whileStmt (proper : place.Proper) (formed : place.tree.Formed clean)
    (isNode : place.kind = .node .whileStmt) (member : child ∈ place.statements) :
    place.Accounts child := by
  obtain ⟨condition, isExpr, whole, -⟩ := statements_whileStmt proper formed isNode
  have among := member
  rw [whole, List.mem_append, Option.mem_toList, Option.mem_toList] at among
  rcases among with first | after
  · -- The condition is looked at by its content.
    refine accounts_of_contentOf? (n := 0) ?_ (isExpr child first) fun part content => ?_
    · rw [statement?, whole, Option.mem_def.mp first]
      rfl
    · rw [shown_eq isNode]
      simp [shownOf, content]
  · -- The body is looked at as a statement.
    refine accounts_of_shownOf isNode ?_
    simp [shownOf, Option.mem_def.mp after]

/-- In a choice, everything is looked at. -/
theorem accounts_ifStmt (proper : place.Proper) (formed : place.tree.Formed clean)
    (isNode : place.kind = .node .ifStmt) (member : child ∈ place.statements) :
    place.Accounts child := by
  obtain ⟨condition, body, isExpr, whole, -⟩ := statements_ifStmt proper formed isNode
  have among := member
  rw [whole, List.mem_cons, List.mem_append, Option.mem_toList, Option.mem_toList] at among
  rcases among with rfl | second | after
  · -- The condition is looked at by its content.
    refine accounts_of_contentOf? (n := 0) ?_ isExpr fun part content => ?_
    · rw [statement?, whole]
      rfl
    · rw [shown_eq isNode]
      simp [shownOf, content]
  · -- The first branch is the statement after the condition.
    have numbered : place.statement? 1 = some child := by
      rw [statement?, whole, Option.mem_def.mp second]
      rfl
    refine accounts_of_shownOf isNode ?_
    simp [shownOf, numbered]
  · -- The other branch is the statement after its word.
    refine accounts_of_shownOf isNode ?_
    simp [shownOf, Option.mem_def.mp after]

/-- In a counting loop, everything is looked at. -/
theorem accounts_forStmt (proper : place.Proper) (formed : place.tree.Formed clean)
    (isNode : place.kind = .node .forStmt) (member : child ∈ place.statements) :
    place.Accounts child := by
  obtain ⟨whole, few, isExpr⟩ := statements_forStmt proper formed isNode
  rw [whole, List.mem_append, Option.mem_toList] at member
  rcases member with clause | after
  · -- There are no more clauses than the node asks for.
    refine .content (isExpr child clause) fun part content => ?_
    obtain ⟨n, numbered⟩ := List.mem_iff_getElem?.mp clause
    have early : n < 3 :=
      Nat.lt_of_lt_of_le (List.getElem?_eq_some_iff.mp numbered).1 few
    have found : place.clause? n = some part := by rw [clause?, numbered, Option.bind_some, content]
    rw [shown_eq isNode]
    interval_cases n <;> simp [shownOf, found]
  · refine accounts_of_shownOf isNode ?_
    simp [shownOf, Option.mem_def.mp after]

/-- In a loop over members, everything is looked at if there are no errors. -/
theorem accounts_forInStmt (proper : place.Proper) (formed : place.tree.Formed clean)
    (spotless : clean) (isNode : place.kind = .node .forInStmt)
    (member : child ∈ place.statements) : place.Accounts child := by
  obtain ⟨item, body, whole, isExpr, -, last⟩ := statements_forInStmt proper formed isNode
  -- The word before the body is only missing where there are errors.
  have last : place.statementAfter? (.keyword .doWord) = body :=
    last.resolve_right fun flawed => flawed.1 spotless
  have among := member
  rw [whole, List.mem_append] at among
  rcases among with clause | final
  · have isExpr := isExpr child clause
    rw [List.mem_append, List.mem_append, Option.mem_toList, Option.mem_toList,
      Option.mem_toList] at clause
    -- The item, what the loop runs over, and the step are looked at by their contents.
    rcases clause with (first | second) | step
    · refine accounts_of_contentOf? (n := 0) ?_ isExpr fun part content => ?_
      · rw [statement?, whole, Option.mem_def.mp first]
        rfl
      · rw [shown_eq isNode]
        simp [shownOf, content]
    · refine accounts_of_contentAfter? second isExpr fun part content => ?_
      rw [shown_eq isNode]
      simp [shownOf, content]
    · refine accounts_of_contentAfter? step isExpr fun part content => ?_
      rw [shown_eq isNode]
      simp [shownOf, content]
  · refine accounts_of_shownOf isNode ?_
    simp [shownOf, last, Option.mem_toList.mp final]

/-- A declaration holds at most one node of each kind, and at most one expression. -/
theorem nodup_of_isDeclaration {kinds : List NodeKind} (declares : kind.isDeclaration = true)
    (admitted : kind.admits kinds = true) :
    kinds.Nodup ∧ kinds.countP NodeKind.isExpression ≤ 1 := by
  -- A type may come first, and occurs no further.
  have typed {kinds : List NodeKind} (rest : (kinds.Nodup ∧ kinds.countP NodeKind.isExpression ≤ 1)
      ∧ .typeRef ∉ kinds) : (NodeKind.typeRef :: kinds).Nodup
        ∧ (NodeKind.typeRef :: kinds).countP NodeKind.isExpression ≤ 1 :=
    ⟨List.nodup_cons.mpr ⟨rest.2, rest.1.1⟩, rest.1.2⟩
  have named {kinds : List NodeKind} (holds : NodeKind.namesVariable kinds = true) :
      (kinds.Nodup ∧ kinds.countP NodeKind.isExpression ≤ 1) ∧ .typeRef ∉ kinds := by
    unfold NodeKind.namesVariable at holds
    split at holds <;> first | decide | cases holds
  have arrays {kinds : List NodeKind} (holds : NodeKind.namesArray kinds = true) :
      (kinds.Nodup ∧ kinds.countP NodeKind.isExpression ≤ 1) ∧ .typeRef ∉ kinds := by
    unfold NodeKind.namesArray at holds
    split at holds <;> first | decide | cases holds
  -- Only three kinds declare something, each with a short table of what it admits.
  cases kind <;> first | cases declares; done | skip
  case varDecl =>
    simp only [NodeKind.admits] at admitted
    split at admitted
    · decide
    · exact typed (named admitted)
    · exact (named admitted).1
  case arrayDecl =>
    simp only [NodeKind.admits] at admitted
    split at admitted
    · exact typed (arrays admitted)
    · exact (arrays admitted).1
  case funcDecl =>
    simp only [NodeKind.admits] at admitted
    split at admitted <;> first | decide | cases admitted

/-- The only expression of a declaration is its first one. -/
theorem expression?_of_isDeclaration (proper : place.Proper) (isNode : place.kind = .node kind)
    (declares : kind.isDeclaration = true) (member : child ∈ place.expressions) :
    place.expression? 0 = some child := by
  obtain ⟨kinds, mapped, admitted⟩ := proper.nodes isNode
  -- The kinds of the nodes below tell how many of them are expressions.
  have few : place.expressions.length ≤ 1 := by
    have same : place.expressions.length = (place.nodes.map Place.kind).countP
        (Kind.isNodeWith NodeKind.isExpression) := by
      rw [expressions, ← List.countP_eq_length_filter, List.countP_map]
      rfl
    rw [same, mapped, List.countP_map]
    exact (nodup_of_isDeclaration declares admitted).2
  rcases numbered_or_mem_drop member 1 with ⟨n, early, numbered⟩ | late
  · rwa [Nat.lt_one_iff.mp early] at numbered
  · simp [List.drop_eq_nil_of_le few] at late

/-- Nodes of a declaration that are of the same kind are the same. -/
theorem eq_of_isDeclaration (proper : place.Proper) (isNode : place.kind = .node kind)
    (declares : kind.isDeclaration = true) {left right : Place} (one : left ∈ place.nodes)
    (other : right ∈ place.nodes) (same : left.kind = right.kind) : left = right := by
  obtain ⟨kinds, mapped, admitted⟩ := proper.nodes isNode
  have distinct : (place.nodes.map Place.kind).Nodup :=
    mapped ▸ (nodup_of_isDeclaration declares admitted).1.map fun _ _ => Kind.node.inj
  exact List.inj_on_of_nodup_map distinct one other same

/-- The only node of its kind is the first one. -/
theorem nodeOf?_of_isDeclaration (proper : place.Proper) (isNode : place.kind = .node kind)
    (declares : kind.isDeclaration = true) (member : child ∈ place.nodes)
    (isInner : child.kind = .node inner) : place.nodeOf? inner = some child := by
  cases found : place.nodeOf? inner with
  | none =>
    have absent := List.find?_eq_none.mp found child member
    simp [isA, isInner] at absent
  | some other =>
    have isOther : other.isA inner = true := List.find?_some found
    rw [eq_of_isDeclaration proper isNode declares member (List.mem_of_find?_eq_some found)
      (isInner.trans (beq_iff_eq.mp isOther).symm)]

/-- The only place among several that a search can stop at is what it finds. -/
theorem findSome?_eq_some {places : List Place} {find : Place → Option Place}
    (member : child ∈ places) (found : find child = some part)
    (only : ∀ other ∈ places, (find other).isSome = true → other = child) :
    places.findSome? find = some part := by
  cases result : places.findSome? find with
  | none => simp [List.findSome?_eq_none_iff.mp result child member] at found
  | some other =>
    obtain ⟨stop, among, stops⟩ := List.exists_of_findSome?_eq_some result
    rw [only stop among (by simp [stops]), found] at stops
    exact stops.symm

/-- Only an expression statement has a content. -/
theorem isA_of_content? (content : (child.content?).isSome = true) : child.isA .exprStmt = true := by
  unfold content? at content
  split at content
  · assumption
  · cases content

/-- A reference to a variable that stands first is the leading name. -/
theorem leadingName?_of_first (first : place.expression? 0 = some child)
    (isName : child.isNameRef = true) : place.leadingName? = some child := by
  rw [leadingName?, first, Option.filter_some, if_pos isName]

/-- The only name of a declaration is its leading name. -/
theorem leadingName?_of_isDeclaration (proper : place.Proper) (isNode : place.kind = .node kind)
    (declares : kind.isDeclaration = true) (member : child ∈ place.nodes)
    (isInner : child.kind = .node .nameRef) : place.leadingName? = some child := by
  have isExpression : child.isExpression = true := by
    rw [Place.isExpression, isInner]
    rfl
  have isName : child.isNameRef = true := by
    rw [isNameRef, isInner]
    rfl
  exact leadingName?_of_first (expression?_of_isDeclaration proper isNode declares
    (List.mem_filter.mpr ⟨member, isExpression⟩)) isName

/-- In the declaration of variables, everything is accounted for. -/
theorem accounts_varDecl (proper : place.Proper) (isNode : place.kind = .node .varDecl)
    (member : child ∈ place.nodes) : place.Accounts child := by
  obtain ⟨outer, inner, isOuter, isInner, held⟩ := proper.exists_kinds member
  cases isOuter.symm.trans isNode
  simp only [NodeKind.mayHold, Bool.or_eq_true, beq_iff_eq] at held
  -- The node below is a type, a name, a list of names, or a value.
  rcases held with ((rfl | rfl) | rfl) | rfl
  · exact .silent (.inl (by simp [isA, isInner]))
  · refine accounts_of_shownOf isNode ?_
    simp [shownOf, leadingName?_of_isDeclaration proper isNode rfl member isInner]
  · have isList : child.isA .nameList = true := by simp [isA, isInner]
    have isExpression : child.isExpression = true := by
      rw [Place.isExpression, isInner]
      rfl
    have first := expression?_of_isDeclaration proper isNode rfl
      (List.mem_filter.mpr ⟨member, isExpression⟩)
    refine .names isList fun name among isName => ?_
    rw [shown_eq isNode, shownOf, declaredNames_eq first isList]
    exact List.mem_append_right _ (List.mem_filter.mpr ⟨among, isName⟩)
  · refine .content (by simp [isA, isInner]) fun part content => ?_
    -- The search for a value stops at an expression statement, of which there is only this one.
    have value : place.initialValue? = some part :=
      findSome?_eq_some member content fun other among stops =>
        eq_of_isDeclaration proper isNode rfl among member
          ((beq_iff_eq.mp (isA_of_content? stops)).trans isInner.symm)
    rw [shown_eq isNode]
    simp [shownOf, value]

/-- In the declaration of a function, everything is accounted for. -/
theorem accounts_funcDecl (proper : place.Proper) (isNode : place.kind = .node .funcDecl)
    (member : child ∈ place.nodes) : place.Accounts child := by
  obtain ⟨outer, inner, isOuter, isInner, held⟩ := proper.exists_kinds member
  cases isOuter.symm.trans isNode
  simp only [NodeKind.mayHold, Bool.or_eq_true, beq_iff_eq] at held
  have only := nodeOf?_of_isDeclaration proper isNode rfl member isInner
  -- The node below is a type, a name, the parameters, or the body.
  rcases held with ((rfl | rfl) | rfl) | rfl
  · exact .silent (.inl (by simp [isA, isInner]))
  · exact .name (leadingName?_of_isDeclaration proper isNode rfl member isInner) (.inl isNode)
  · refine accounts_of_shownOf isNode ?_
    simp [shownOf, only]
  · refine accounts_of_shownOf isNode ?_
    simp [shownOf, only]

/-- Before the name of a declaration stand at most a type and a mark. -/
theorem kind_of_header {constituents : List Constituent} (header : Header constituents)
    {places : List Place} (matched : List.Forall₂ Matches places constituents) :
    ∀ child ∈ places, child.kind = .node .typeRef ∨ child.kind = .token (.sign .ampersand) := by
  intro child member
  obtain ⟨constituent, among, same⟩ := exists_matches matched member
  -- The mark is a token, if it is there.
  have marked {mark : List Constituent} (optional : Optionally (.token (.sign .ampersand)) mark)
      (inMark : constituent ∈ mark) : child.kind = .token (.sign .ampersand) := by
    cases optional with
    | absent => cases inMark
    | present =>
      obtain rfl := List.mem_singleton.mp inMark
      exact same.1
  cases header with
  | typed first optional =>
    rcases List.mem_cons.mp among with rfl | inMark
    · exact .inl same.1
    · exact .inr (marked optional inMark)
  | untyped optional => exact .inr (marked optional among)

/-- Among the values of an array there is no expression statement. -/
theorem ne_exprStmt_of_values {constituents : List Constituent} (values : Values clean constituents)
    {places : List Place} (matched : List.Forall₂ Matches places constituents) :
    ∀ child ∈ places, child.kind ≠ .node .exprStmt := by
  intro child member isExpr
  obtain ⟨constituent, among, same⟩ := exists_matches matched member
  have isNode : ∃ first, constituent = .node .exprStmt first := by
    cases constituent with
    | token kind => cases isExpr.symm.trans same.1
    | node kind first =>
      cases isExpr.symm.trans same.1
      exact ⟨first, rfl⟩
  obtain ⟨first, rfl⟩ := isNode
  -- Values are a list of arguments between braces.
  cases values with
  | absent | cut => simp at among
  | given _ close => cases close <;> simp at among

/-- The size of an array that is declared without errors stands before the closing bracket. -/
theorem exists_bracket_of_arrayDecl (proper : place.Proper) (formed : place.tree.Formed clean)
    (spotless : clean) (isNode : place.kind = .node .arrayDecl) (member : child ∈ place.nodes)
    (isInner : child.kind = .node .exprStmt) :
    ∃ bracket, place.tokenOf? [.sign .rightBracket] = some bracket
      ∧ child.stop ≤ bracket.start := by
  have among : child ∈ place.significant :=
    List.mem_filter.mpr ⟨(List.mem_filter.mp member).1, by simp [isInner, Kind.passes]⟩
  have matched := forall₂_significant formed
  have forms : ArrayDecl clean _ := forms_of_kind formed isNode
  generalize Tree.constituents place.tree.children = constituents at forms matched
  obtain ⟨_, header, size, values⟩ := forms
  obtain ⟨heads, _, split, isHeader, others⟩ := exists_append_of_forall₂ matched
  simp only [List.forall₂_cons_right_iff] at others
  obtain ⟨name, _, isName, ⟨opening, _, isOpening, others, rfl⟩, rfl⟩ := others
  obtain ⟨sizes, items, rfl, isSize, isItems⟩ := exists_append_of_forall₂ others
  have early := kind_of_header header isHeader
  -- An expression statement is neither in the header nor among the values, so it is the size.
  have inSize : child ∈ sizes := by
    rw [split] at among
    simp only [List.mem_append, List.mem_cons] at among
    rcases among with inHeads | rfl | rfl | inSize | inItems
    · rcases early child inHeads with same | same <;> cases isInner.symm.trans same
    · cases isInner.symm.trans isName.1
    · cases isInner.symm.trans isOpening.1
    · exact inSize
    · exact absurd isInner (ne_exprStmt_of_values values isItems child inItems)
  -- An open size holds no statement, and a size that is given ends with a bracket.
  cases size with
  | «open» =>
    simp only [List.forall₂_cons_right_iff, List.forall₂_nil_right_iff] at isSize
    obtain ⟨bracket, _, isBracket, rfl, rfl⟩ := isSize
    obtain rfl := List.mem_singleton.mp inSize
    cases isInner.symm.trans isBracket.1
  | given _ close =>
    cases close with
    | absent flawed => exact absurd spotless flawed
    | present =>
      simp only [List.forall₂_cons_right_iff, List.forall₂_nil_right_iff] at isSize
      obtain ⟨clause, _, isClause, ⟨bracket, _, isBracket, rfl, rfl⟩, rfl⟩ := isSize
      have split : place.significant
          = (heads ++ [name, opening, clause]) ++ bracket :: items := by simp [split]
      -- No bracket of this kind stands before the size.
      have first : ∀ other ∈ heads ++ [name, opening, clause],
          other.kind ≠ .token (.sign .rightBracket) := by
        refine List.forall_mem_append.mpr ⟨fun other inHeads => ?_, ?_⟩
        · rcases early other inHeads with same | same <;> simp [same]
        · simp [isName.1, isOpening.1, isClause.1]
      refine ⟨bracket, tokenOf?_of_split formed split isBracket.1 first, ?_⟩
      refine ((apart_of_split proper split isBracket.1).1 child ?_).1
      rcases List.mem_cons.mp inSize with rfl | last
      · simp
      · obtain rfl := List.mem_singleton.mp last
        cases isInner.symm.trans isBracket.1

/-- In the declaration of an array without errors, everything is accounted for. -/
theorem accounts_arrayDecl (proper : place.Proper) (formed : place.tree.Formed clean)
    (spotless : clean) (isNode : place.kind = .node .arrayDecl) (member : child ∈ place.nodes) :
    place.Accounts child := by
  obtain ⟨outer, inner, isOuter, isInner, held⟩ := proper.exists_kinds member
  cases isOuter.symm.trans isNode
  simp only [NodeKind.mayHold, Bool.or_eq_true, beq_iff_eq] at held
  -- The node below is a type, a name, the size, or the list of values.
  rcases held with ((rfl | rfl) | rfl) | rfl
  · exact .silent (.inl (by simp [isA, isInner]))
  · refine accounts_of_shownOf isNode ?_
    simp [shownOf, leadingName?_of_isDeclaration proper isNode rfl member isInner]
  · refine .content (by simp [isA, isInner]) fun part content => ?_
    obtain ⟨bracket, found, before⟩ :=
      exists_bracket_of_arrayDecl proper formed spotless isNode member isInner
    -- The size is searched for before the bracket, where it stands.
    have size : place.arraySize? = some part := by
      rw [arraySize?, found, Option.bind_some]
      refine findSome?_eq_some (List.mem_filter.mpr ⟨member, by simpa using before⟩) content
        fun other among stops => ?_
      exact eq_of_isDeclaration proper isNode rfl (List.mem_filter.mp among).1 member
        ((beq_iff_eq.mp (isA_of_content? stops)).trans isInner.symm)
    rw [shown_eq isNode]
    simp [shownOf, size]
  · refine accounts_of_shownOf isNode ?_
    simp [shownOf, nodeOf?_of_isDeclaration proper isNode rfl member isInner]

/-- In a call, the arguments are looked at, and a name that is called stands out by itself. -/
theorem accounts_call (proper : place.Proper) (formed : place.tree.Formed clean)
    (spotless : clean) (isNode : place.kind = .node .call) (member : child ∈ place.nodes) :
    place.Accounts child := by
  obtain ⟨operandKind, first, list, operand, forms⟩ := forms_of_kind formed isNode
  have matched := forall₂_significant formed
  rw [forms] at matched
  simp only [List.forall₂_cons_right_iff, List.forall₂_nil_right_iff] at matched
  obtain ⟨callee, _, isCallee, ⟨arguments, _, isList, rfl, rfl⟩, split⟩ := matched
  have isExpression := isExpression_of_operand isCallee.1 operand
  -- A call consists of what is called and of its arguments.
  have expressions : place.expressions = [callee] := by
    have other : arguments.isExpression = false := by
      rw [Place.isExpression, isList.1]
      rfl
    rw [expressions_eq_significant formed, split]
    simp [isExpression, other]
  have lists : place.nodesOf .argList = [arguments] := by
    have other : callee.isA .argList = false := by
      simp [isA, isCallee.1, ne_argList_of_isOperand operand]
    have same : arguments.isA .argList = true := by simp [isA, isList.1]
    rw [nodesOf_eq_significant formed, split]
    simp [other, same]
  rcases isExpression_of_mem_nodes proper formed spotless isNode rfl member with
    inside | isType | ⟨-, isList⟩
  · obtain rfl := List.mem_singleton.mp (expressions ▸ inside)
    -- What is called is passed over unless it is a name.
    cases isName : child.isNameRef with
    | true =>
      have first : place.expression? 0 = some child := by
        rw [expression?, expressions]
        rfl
      exact .name (leadingName?_of_first first isName) (.inr isNode)
    | false =>
      refine .passedOver ?_
      rw [passedOver, isNode]
      exact List.mem_filter.mpr ⟨inside, by simp [isName]⟩
  · exact .silent (.inl isType)
  · have only : child ∈ place.nodesOf .argList := List.mem_filter.mpr ⟨member, isList⟩
    obtain rfl := List.mem_singleton.mp (lists ▸ only)
    have found : place.nodeOf? .argList = some child := by
      rw [nodeOf?, ← List.head?_filter]
      show (place.nodesOf .argList).head? = _
      rw [lists]
      rfl
    refine accounts_of_shownOf isNode ?_
    simp [shownOf, found]

/-- Of an index and what it is taken of, the first expression is looked at if it is a name. -/
theorem accounts_index (isNode : place.kind = .node .index) (member : child ∈ place.expressions) :
    place.Accounts child := by
  rcases numbered_or_mem_drop member 3 with ⟨n, early, numbered⟩ | late
  · have found : place.expression? n = some child := numbered
    interval_cases n
    · -- What is indexed is passed over unless it is a name.
      cases isName : child.isNameRef with
      | true =>
        refine accounts_of_shownOf isNode ?_
        simp [shownOf, leadingName?_of_first found isName]
      | false =>
        refine .passedOver ?_
        rw [passedOver, isNode]
        refine List.mem_append_left _ (List.mem_filter.mpr ⟨?_, by simp [isName]⟩)
        exact List.mem_iff_getElem?.mpr ⟨0, by rw [List.getElem?_take_of_lt Nat.zero_lt_one, numbered]⟩
    · refine accounts_of_shownOf isNode ?_
      simp [shownOf, found]
    · refine accounts_of_shownOf isNode ?_
      simp [shownOf, found]
  · refine .passedOver ?_
    rw [passedOver, isNode]
    exact List.mem_append_right _ late

/-- A single node is accounted for if it is an expression statement whose content is looked at. -/
theorem accounts_of_single (single : place.statements = [child])
    (isExpr : child.isA .exprStmt = true)
    (looks : ∀ part, place.contentOf? 0 = some part → part ∈ place.shown) : place.Accounts child :=
  accounts_of_contentOf? (by rw [statement?, single]; rfl) isExpr looks

/-- In the return of a value, the value is looked at. -/
theorem accounts_returnStmt (proper : place.Proper) (formed : place.tree.Formed clean)
    (isNode : place.kind = .node .returnStmt) (member : child ∈ place.nodes) :
    place.Accounts child := by
  obtain ⟨outer, inner, isOuter, isInner, held⟩ := proper.exists_kinds member
  cases isOuter.symm.trans isNode
  obtain rfl : inner = .exprStmt := beq_iff_eq.mp held
  have isExpr : child.isA .exprStmt = true := by simp [isA, isInner]
  have among : child ∈ place.statements := List.mem_filter.mpr ⟨member, isStatement_of_isA isExpr⟩
  -- The value is the only statement, since the only other constituent is a token.
  have single : place.statements = [child] := by
    have matched := forall₂_significant formed
    have forms : Return _ := forms_of_kind formed isNode
    generalize Tree.constituents place.tree.children = constituents at forms matched
    rw [statements_eq_significant formed] at among ⊢
    obtain ⟨value⟩ := forms
    cases value with
    | absent =>
      simp only [List.forall₂_cons_right_iff, List.forall₂_nil_right_iff] at matched
      obtain ⟨word, _, isWord, rfl, split⟩ := matched
      simp [split, isStatement_of_token isWord.1] at among
    | present =>
      simp only [List.forall₂_cons_right_iff, List.forall₂_nil_right_iff] at matched
      obtain ⟨word, _, isWord, ⟨value, _, isValue, rfl, rfl⟩, split⟩ := matched
      have whole : place.significant.filter isStatement = [value] := by
        simp [split, isStatement_of_token isWord.1, matches_exprStmt isValue]
      rw [whole] at among ⊢
      rw [List.mem_singleton.mp among]
  refine accounts_of_single single isExpr fun part content => ?_
  rw [shown_eq isNode]
  simp [shownOf, content]

/-- In the list of parameters, each of them is looked at. -/
theorem accounts_paramList (isNode : place.kind = .node .paramList) (member : child ∈ place.nodes)
    (isParam : child.kind = .node .param) : place.Accounts child :=
  accounts_of_shownOf isNode (List.mem_filter.mpr ⟨member, by simp [isA, isParam]⟩)

/-- In a parameter, the declaration is looked at. -/
theorem accounts_param (proper : place.Proper) (isNode : place.kind = .node .param)
    (member : child ∈ place.nodes) (isInner : child.kind = .node inner)
    (declares : inner.isDeclaration = true) : place.Accounts child := by
  -- A parameter is admitted with at most one node, so the declaration is the only one.
  have single : place.nodes = [child] := by
    obtain ⟨kinds, mapped, admitted⟩ := proper.nodes isNode
    simp only [NodeKind.admits] at admitted
    split at admitted
    · simp [List.map_eq_nil_iff.mp mapped] at member
    · obtain ⟨only, same, -⟩ := List.map_eq_singleton_iff.mp mapped
      rw [same] at member ⊢
      rw [List.mem_singleton.mp member]
    · cases admitted
  have found : place.parameterDecl? = some child := by
    rw [parameterDecl?, single, List.find?_cons_of_pos]
    cases inner <;> first | cases declares; done | simp [isA, isInner]
  refine accounts_of_shownOf isNode ?_
  simp [shownOf, found]

/-- In an argument, the content of its only statement is looked at. -/
theorem accounts_arg (proper : place.Proper) (isNode : place.kind = .node .arg)
    (member : child ∈ place.nodes) (isExpr : child.isA .exprStmt = true) : place.Accounts child := by
  have single : place.statements = [child] := by
    obtain ⟨kinds, mapped, admitted⟩ := proper.nodes isNode
    rw [beq_iff_eq.mp admitted] at mapped
    obtain ⟨only, same, -⟩ := List.map_eq_singleton_iff.mp mapped
    rw [same] at member
    rw [statements, same, ← List.mem_singleton.mp member]
    exact List.filter_cons_of_pos (isStatement_of_isA isExpr)
  refine accounts_of_single single isExpr fun part content => ?_
  rw [shown_eq isNode]
  simp [shownOf, content]

/-- In a list of arguments, each argument is looked at, and a value by itself is passed over. -/
theorem accounts_argList (isNode : place.kind = .node .argList) (member : child ∈ place.nodes)
    (isInner : child.kind = .node inner) (held : NodeKind.argList.mayHold inner = true) :
    place.Accounts child := by
  rcases Bool.or_eq_true_iff.mp held with isArg | isExpr
  · refine accounts_of_shownOf isNode ?_
    exact List.mem_filter.mpr ⟨member, by simp [isA, isInner, beq_iff_eq.mp isArg]⟩
  · refine .passedOver ?_
    rw [passedOver, isNode]
    exact List.mem_filter.mpr ⟨member, by simp [isA, isInner, beq_iff_eq.mp isExpr]⟩

/-- In a list of names, each name is looked at, and the values between them are passed over. -/
theorem accounts_nameList (isNode : place.kind = .node .nameList) (member : child ∈ place.nodes)
    (isInner : child.kind = .node inner) (held : NodeKind.nameList.mayHold inner = true) :
    place.Accounts child := by
  rcases Bool.or_eq_true_iff.mp held with isName | isExpr
  · refine accounts_of_shownOf isNode (List.mem_filter.mpr ⟨member, ?_⟩)
    rw [isNameRef, isInner, beq_iff_eq.mp isName]
    rfl
  · refine .passedOver ?_
    rw [passedOver, isNode]
    exact List.mem_filter.mpr ⟨member, by simp [isA, isInner, beq_iff_eq.mp isExpr]⟩

/-- In a place without errors, every node right below is accounted for. -/
theorem accounts_of_mem_nodes (proper : place.Proper) (formed : place.tree.Formed clean)
    (spotless : clean) (member : child ∈ place.nodes) : place.Accounts child := by
  obtain ⟨outer, inner, isNode, isInner, held⟩ := proper.exists_kinds member
  have inside := (List.mem_filter.mp member).1
  -- Where there are no errors, nothing was passed over by the parser.
  have noSkipped := ne_skipped (formed_of_mem_children formed inside) spotless isInner
  have statement (isStatement : inner.isStatement = true) : child ∈ place.statements :=
    List.mem_filter.mpr ⟨member, by rw [Place.isStatement, isInner]; exact isStatement⟩
  have action (isAction : inner.isAction = true) : child ∈ place.statements :=
    statement (NodeKind.isStatement_of_isAction isAction)
  have item (isItem : inner.isItem = true) :
      child ∈ place.statements ∨ child.isA .ignored = true := by
    rcases NodeKind.isStatement_of_isItem isItem with isStatement | rfl | rfl
    · exact .inl (statement isStatement)
    · exact .inr (by simp [isA, isInner])
    · exact absurd rfl noSkipped
  -- What may be right below depends on the kind of the place.
  cases outer
  case root | block =>
    rcases item held with isStatement | isIgnored
    · exact accounts_of_shownOf isNode isStatement
    · exact .silent (.inr isIgnored)
  case forStmt => exact accounts_forStmt proper formed isNode (action held)
  case ifStmt => exact accounts_ifStmt proper formed isNode (action held)
  case whileStmt => exact accounts_whileStmt proper formed isNode (action held)
  case forInStmt =>
    rcases item held with isStatement | isIgnored
    · exact accounts_forInStmt proper formed spotless isNode isStatement
    · exact .silent (.inr isIgnored)
  case returnStmt => exact accounts_returnStmt proper formed isNode member
  case varDecl => exact accounts_varDecl proper isNode member
  case arrayDecl => exact accounts_arrayDecl proper formed spotless isNode member
  case funcDecl => exact accounts_funcDecl proper isNode member
  case skipped => exact absurd rfl (ne_skipped formed spotless isNode)
  case paramList =>
    rw [beq_iff_eq.mp held] at isInner
    exact accounts_paramList isNode member isInner
  case param =>
    rcases Bool.or_eq_true_iff.mp held with declares | isSkipped
    · exact accounts_param proper isNode member isInner declares
    · exact absurd (beq_iff_eq.mp isSkipped) noSkipped
  case arg =>
    exact accounts_arg proper isNode member (by simp [isA, isInner, beq_iff_eq.mp held])
  case argList => exact accounts_argList isNode member isInner held
  case nameList => exact accounts_nameList isNode member isInner held
  case exprStmt =>
    rcases Bool.or_eq_true_iff.mp held with operand | isSkipped
    · have isExpression := isExpression_of_operand isInner operand
      exact accounts_of_expression isNode rfl (List.mem_filter.mpr ⟨member, isExpression⟩)
    · exact absurd (beq_iff_eq.mp isSkipped) noSkipped
  case call => exact accounts_call proper formed spotless isNode member
  case index =>
    rcases isExpression_of_mem_nodes proper formed spotless isNode rfl member with
      inside | isType | ⟨isCall, -⟩
    · exact accounts_index isNode inside
    · exact .silent (.inl isType)
    · cases isCall
  -- Some kinds hold no nodes, and the others are compounds that look at their first expressions.
  all_goals first | cases held | skip
  all_goals
    rcases isExpression_of_mem_nodes proper formed spotless isNode rfl member with
      inside | isType | ⟨isCall, -⟩
    · exact accounts_of_expression isNode rfl inside
    · exact .silent (.inl isType)
    · cases isCall

end Place

end Dxl
