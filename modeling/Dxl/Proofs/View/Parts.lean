import Dxl.Proofs.Place.Order
import Dxl.View.Highlight

/-! Parts: which places are looked at from a node of each kind, and what right below it holds them. -/

namespace Dxl.Place

variable {place part holder left right : Place} {kind : NodeKind}

/-- What is found is the part that is made of it. -/
@[simp] theorem map_partAt? {found : Option Place}
    (below : ∀ {inner : Place}, found = some inner → Below inner place) :
    (partAt? found @below).map Subtype.val = found := by
  cases found <;> rfl

/-- All that is found are the parts that are made of it. -/
@[simp] theorem map_partsAmong {found : List Place}
    (below : ∀ {inner : Place}, inner ∈ found → Below inner place) :
    (partsAmong found @below).map Subtype.val = found := by
  simp [partsAmong]

/-- Those parts that are there are found in the same order. -/
@[simp] theorem map_present (found : List (Option (Part place))) :
    (present found).map Subtype.val = (found.map (Option.map Subtype.val)).filterMap id := by
  simp [present, List.map_filterMap, List.filterMap_map]

/-- The places that are looked at from a place. -/
def shown (place : Place) : List Place :=
  place.parts.map Subtype.val

/-- The places that are looked at from a node of the given kind. -/
def shownOf (place : Place) : NodeKind → List Place
  | .root | .block => place.statements
  | .argList => place.nodesOf .arg
  | .arg | .returnStmt => [place.contentOf? 0].filterMap id
  | .paramList => place.nodesOf .param
  | .param => [place.parameterDecl?].filterMap id
  | .arrayDecl =>
    [place.declaredType?, place.leadingName?, place.arraySize?, place.nodeOf? .argList].filterMap id
  | .exprStmt | .grouping | .postfixed | .prefixed => [place.expression? 0].filterMap id
  | .forStmt =>
    [place.clause? 0, place.clause? 1, place.clause? 2,
      place.statementAfter? (.sign .rightParen)].filterMap id
  | .forInStmt =>
    [place.contentOf? 0, place.contentAfter? (.keyword .inWord),
      place.contentAfter? (.keyword .byWord), place.statementAfter? (.keyword .doWord)].filterMap id
  | .funcDecl => [place.declaredType?, place.nodeOf? .paramList, place.nodeOf? .block].filterMap id
  | .ifStmt =>
    [place.contentOf? 0, place.statement? 1, place.statementAfter? (.keyword .elseWord)].filterMap id
  | .varDecl =>
    [place.declaredType?, place.leadingName?, place.initialValue?].filterMap id
      ++ place.declaredNames
  | .whileStmt =>
    [place.contentOf? 0, place.statementAfter? (.sign .rightParen)].filterMap id
  | .arrow | .assignment | .binary | .comparison | .equality | .property | .logical | .range
  | .concat | .shift => [place.expression? 0, place.expression? 1].filterMap id
  | .call => [place.nodeOf? .argList].filterMap id
  | .cast => [place.nodeOf? .typeRef, place.expression? 0].filterMap id
  | .index => [place.leadingName?, place.expression? 1, place.expression? 2].filterMap id
  | .ternary => [place.expression? 0, place.expression? 1, place.expression? 2].filterMap id
  | .nameList => place.nodes.filter isNameRef
  | .typeRef | .breakStmt | .continueStmt | .includeStmt | .pragmaStmt | .literal | .nameRef
  | .nullRef | .ignored | .skipped => []

/-- What is looked at from a place depends on its kind. -/
theorem shown_eq (isNode : place.kind = .node kind) : place.shown = place.shownOf kind := by
  -- The parts carry proofs that they lie below the place, which are dropped here.
  rw [shown, parts, isNode]
  cases kind <;>
    simp only [partsOf, shownOf, statementParts, contentPart?, parameterPart?, declaredTypePart?,
      namePart?, arraySizePart?, nodePart?, operandPart?, clausePart?, statementPartAfter?,
      contentPartAfter?, statementPart?, initialValuePart?, map_present, map_partsAmong,
      map_partAt?, List.map_append, List.map_cons, List.map_nil]

/-- What holds a place that is looked at: it is right below itself, the content of a statement, or one of several names. -/
inductive Shows (outer : Place) : Place → Place → Prop
  | itself {inner : Place} : inner ∈ outer.nodes → Shows outer inner inner
  | content {statement inner : Place} : statement ∈ outer.nodes →
    statement.content? = some inner → Shows outer statement inner
  | name {list inner : Place} : list ∈ outer.nodes → list.isA .nameList = true →
    inner ∈ list.nodes → inner.isNameRef = true → Shows outer list inner

/-- What holds a place that is looked at is right below. -/
theorem Shows.mem_nodes (shows : place.Shows holder part) : holder ∈ place.nodes := by
  cases shows <;> assumption

/-- What is looked at is within what holds it. -/
theorem Shows.within (shows : place.Shows holder part) : part.Within holder := by
  cases shows with
  | itself => exact .refl _
  | content _ content => exact .inr (below_of_content? content)
  | name _ _ among => exact .inr (below_of_mem_nodes among)

/-- A part is held by a node of one of the kinds that pass a test. -/
def HeldBy (place : Place) (test : NodeKind → Bool) (part : Place) : Prop :=
  ∃ holder, place.Shows holder part ∧ holder.kind.isNodeWith test = true

section

variable {n : Nat} {token : TokenKind}

/-- A numbered expression is held by itself. -/
theorem heldBy_of_expression? (found : place.expression? n = some part) :
    place.HeldBy NodeKind.isExpression part := by
  obtain ⟨inNodes, isExpression⟩ := List.mem_filter.mp (List.mem_of_getElem? found)
  exact ⟨part, .itself inNodes, isExpression⟩

/-- A leading name is held by itself. -/
theorem heldBy_of_leadingName? (found : place.leadingName? = some part) :
    place.HeldBy NodeKind.isNameRef part := by
  obtain ⟨numbered, isName⟩ := Option.filter_eq_some_iff.mp found
  obtain ⟨inNodes, -⟩ := List.mem_filter.mp (List.mem_of_getElem? numbered)
  exact ⟨part, .itself inNodes, isName⟩

/-- The first node of a kind is held by itself. -/
theorem heldBy_of_nodeOf? (found : place.nodeOf? kind = some part) :
    place.HeldBy (· == kind) part := by
  refine ⟨part, .itself (List.mem_of_find?_eq_some found), ?_⟩
  have isKind : part.isA kind = true := List.find?_some found
  simp [beq_iff_eq.mp isKind, Kind.isNodeWith]

/-- The type that a declaration starts with is held by itself. -/
theorem heldBy_of_declaredType? (found : place.declaredType? = some part) :
    place.HeldBy (· == .typeRef) part := by
  obtain ⟨numbered, isType⟩ := Option.filter_eq_some_iff.mp found
  obtain ⟨inNodes, -⟩ := List.mem_filter.mp (List.mem_of_getElem? numbered)
  refine ⟨part, .itself inNodes, ?_⟩
  simp [beq_iff_eq.mp isType, Kind.isNodeWith]

/-- The content of a statement is held by an expression statement. -/
theorem heldBy_of_content? (inNodes : holder ∈ place.nodes)
    (content : holder.content? = some part) : place.HeldBy (· == .exprStmt) part := by
  refine ⟨holder, .content inNodes content, ?_⟩
  -- Only an expression statement has content.
  unfold content? at content
  split at content
  · rename_i isExpr
    simp [beq_iff_eq.mp isExpr, Kind.isNodeWith]
  · cases content

/-- A numbered statement is right below. -/
theorem mem_nodes_of_statement? (found : place.statement? n = some part) : part ∈ place.nodes :=
  (List.mem_filter.mp (List.mem_of_getElem? found)).1

/-- A statement after a token is right below. -/
theorem mem_statements_of_statementAfter? (found : place.statementAfter? token = some part) :
    part ∈ place.statements := by
  obtain ⟨_, _, located⟩ := Option.bind_eq_some_iff.mp found
  -- The search is over all nodes, and its test asks for a statement too.
  have passes := List.find?_some located
  exact List.mem_filter.mpr ⟨List.mem_of_find?_eq_some located, (Bool.and_eq_true_iff.mp passes).2⟩

/-- The content of a numbered statement is held by an expression statement. -/
theorem heldBy_of_contentOf? (found : place.contentOf? n = some part) :
    place.HeldBy (· == .exprStmt) part := by
  obtain ⟨holder, numbered, content⟩ := Option.bind_eq_some_iff.mp found
  exact heldBy_of_content? (mem_nodes_of_statement? numbered) content

/-- An initial value is held by an expression statement. -/
theorem heldBy_of_initialValue? (found : place.initialValue? = some part) :
    place.HeldBy (· == .exprStmt) part := by
  obtain ⟨holder, among, content⟩ := List.exists_of_findSome?_eq_some found
  exact heldBy_of_content? among content

/-- The size of an array is held by an expression statement. -/
theorem heldBy_of_arraySize? (found : place.arraySize? = some part) :
    place.HeldBy (· == .exprStmt) part := by
  obtain ⟨_, _, located⟩ := Option.bind_eq_some_iff.mp found
  obtain ⟨holder, among, content⟩ := List.exists_of_findSome?_eq_some located
  exact heldBy_of_content? (List.mem_filter.mp among).1 content

/-- The nodes up to a closing parenthesis are some of the nodes right below. -/
theorem headerNodes_sublist (place : Place) : place.headerNodes.Sublist place.nodes := by
  unfold headerNodes
  split
  · exact List.filter_sublist
  · exact List.Sublist.refl _

/-- A clause of a loop is the content of a statement with the same number in the header. -/
theorem exists_of_clause? (found : place.clause? n = some part) :
    ∃ holder, (place.headerNodes.filter isStatement)[n]? = some holder
      ∧ holder.content? = some part :=
  Option.bind_eq_some_iff.mp found

/-- A clause of a loop is held by an expression statement. -/
theorem heldBy_of_clause? (found : place.clause? n = some part) :
    place.HeldBy (· == .exprStmt) part := by
  obtain ⟨holder, numbered, content⟩ := exists_of_clause? found
  have among := (List.mem_filter.mp (List.mem_of_getElem? numbered)).1
  exact heldBy_of_content? (place.headerNodes_sublist.subset among) content

/-- The expression after a token is the content of the statement after it. -/
theorem exists_of_contentAfter? (found : place.contentAfter? token = some part) :
    ∃ holder, place.statementAfter? token = some holder ∧ holder.content? = some part :=
  Option.bind_eq_some_iff.mp found

/-- The expression after a token is held by an expression statement. -/
theorem heldBy_of_contentAfter? (found : place.contentAfter? token = some part) :
    place.HeldBy (· == .exprStmt) part := by
  obtain ⟨holder, after, content⟩ := exists_of_contentAfter? found
  exact heldBy_of_content? (List.mem_filter.mp (mem_statements_of_statementAfter? after)).1 content

/-- Names that are declared at once are those in the list of names that stands first. -/
theorem declaredNames_eq {list : Place} (first : place.expression? 0 = some list)
    (isList : list.isA .nameList = true) :
    place.declaredNames = list.nodes.filter isNameRef := by
  rw [declaredNames, declaredNames?, first, Option.filter_some, if_pos isList, Option.bind_some,
    listedNames?]
  split <;> simp [*]

/-- Names that are declared at once are those in one list of names. -/
theorem exists_list_of_declaredNames (place : Place) :
    place.declaredNames = [] ∨ ∃ list ∈ place.nodes, list.isA .nameList = true
      ∧ place.declaredNames = list.nodes.filter isNameRef := by
  -- The names are looked for in the first expression, if that is a list of names.
  cases leading : (place.expression? 0).filter (isA .nameList) with
  | none => exact .inl (by rw [declaredNames, declaredNames?, leading]; rfl)
  | some list =>
    obtain ⟨first, isList⟩ := Option.filter_eq_some_iff.mp leading
    exact .inr ⟨list, (List.mem_filter.mp (List.mem_of_getElem? first)).1, isList,
      declaredNames_eq first isList⟩

/-- Names that are declared at once are held by their list. -/
theorem heldBy_of_mem_declaredNames (member : part ∈ place.declaredNames) :
    place.HeldBy (· == .nameList) part := by
  rcases place.exists_list_of_declaredNames with none | ⟨list, among, isList, same⟩
  · simp [none] at member
  · obtain ⟨inList, isName⟩ := List.mem_filter.mp (same ▸ member)
    refine ⟨list, .name among isList inList isName, ?_⟩
    simp [beq_iff_eq.mp isList, Kind.isNodeWith]

end

/-- The content of a statement is looked at from it. -/
theorem mem_shown_of_content? (content : place.content? = some part) : part ∈ place.shown := by
  unfold content? at content
  split at content
  · rename_i isExpr
    rw [shown_eq (beq_iff_eq.mp isExpr)]
    simp [shownOf, content]
  · cases content

/-- A part that is held by a node of some kind is held by some node. -/
theorem HeldBy.exists_shows {test : NodeKind → Bool} (held : place.HeldBy test part) :
    ∃ holder, place.Shows holder part := by
  obtain ⟨holder, shows, -⟩ := held
  exact ⟨holder, shows⟩

/-- Among several places that may be missing are those that are there. -/
theorem mem_filterMap_id {found : List (Option Place)} :
    part ∈ found.filterMap id ↔ some part ∈ found := by
  simp [List.mem_filterMap]

/-- Everything that is looked at is held by a node right below. -/
theorem exists_shows_of_mem_shown (member : part ∈ place.shown) :
    ∃ holder, place.Shows holder part := by
  -- Each way of looking for a part has its own lemma, and the cases only put them together.
  have itself (among : part ∈ place.nodes) : ∃ holder, place.Shows holder part :=
    ⟨part, .itself among⟩
  have listed {test : Place → Bool} (among : part ∈ place.nodes.filter test) :=
    itself (List.mem_filter.mp among).1
  have operand {n : Nat} (found : some part = place.expression? n) :=
    listed (List.mem_of_getElem? found.symm)
  have after {token : TokenKind} (found : some part = place.statementAfter? token) :=
    listed (mem_statements_of_statementAfter? found.symm)
  have content {n : Nat} (found : some part = place.contentOf? n) :=
    (heldBy_of_contentOf? found.symm).exists_shows
  have clause {n : Nat} (found : some part = place.clause? n) :=
    (heldBy_of_clause? found.symm).exists_shows
  have later {token : TokenKind} (found : some part = place.contentAfter? token) :=
    (heldBy_of_contentAfter? found.symm).exists_shows
  have first {kind : NodeKind} (found : some part = place.nodeOf? kind) :=
    (heldBy_of_nodeOf? found.symm).exists_shows
  have type (found : some part = place.declaredType?) :=
    (heldBy_of_declaredType? found.symm).exists_shows
  have name (found : some part = place.leadingName?) :=
    (heldBy_of_leadingName? found.symm).exists_shows
  cases isKind : place.kind with
  | token kind => simp [shown, parts, isKind] at member
  | node kind =>
    rw [shown_eq isKind] at member
    -- The kind of the node tells which parts are looked for.
    cases kind <;>
      simp only [shownOf, mem_filterMap_id, List.mem_cons, List.not_mem_nil, or_false,
        List.mem_append] at member
    case root | block | argList | paramList | nameList => exact listed member
    case arg | returnStmt => exact content member
    case param => exact itself (List.mem_of_find?_eq_some member.symm)
    case arrayDecl =>
      rcases member with found | found | found | found
      · exact type found
      · exact name found
      · exact (heldBy_of_arraySize? found.symm).exists_shows
      · exact first found
    case exprStmt | grouping | postfixed | prefixed => exact operand member
    case forStmt =>
      rcases member with found | found | found | found
      · exact clause found
      · exact clause found
      · exact clause found
      · exact after found
    case forInStmt =>
      rcases member with found | found | found | found
      · exact content found
      · exact later found
      · exact later found
      · exact after found
    case funcDecl =>
      rcases member with found | found | found
      · exact type found
      · exact first found
      · exact first found
    case ifStmt =>
      rcases member with found | found | found
      · exact content found
      · exact itself (mem_nodes_of_statement? found.symm)
      · exact after found
    case varDecl =>
      rcases member with (found | found | found) | among
      · exact type found
      · exact name found
      · exact (heldBy_of_initialValue? found.symm).exists_shows
      · exact (heldBy_of_mem_declaredNames among).exists_shows
    case whileStmt => exact member.elim content after
    case call => exact first member
    case cast => exact member.elim first operand
    case index =>
      rcases member with found | found | found
      · exact name found
      · exact operand found
      · exact operand found
    case ternary => rcases member with found | found | found <;> exact operand found
    all_goals exact member.elim operand operand

end Dxl.Place
