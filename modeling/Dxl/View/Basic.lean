import Dxl.Place.Basic

/-! Views of places: finding parts of a construct among the children of its node. -/

namespace Dxl

/-- Nodes that are viewed as statements or as parts of them. -/
def NodeKind.isStatement : NodeKind → Bool
  | .root | .argList | .arg | .paramList | .param | .typeRef | .arrayDecl | .block | .breakStmt
  | .continueStmt | .exprStmt | .forStmt | .forInStmt | .funcDecl | .ifStmt | .includeStmt
  | .pragmaStmt | .returnStmt | .varDecl | .whileStmt => true
  | _ => false

/-- Nodes that are viewed as references to a name. -/
def NodeKind.isNameRef : NodeKind → Bool
  | .nameRef | .nullRef => true
  | _ => false

/-- Nodes that are viewed as expressions. -/
def NodeKind.isExpression : NodeKind → Bool
  | .arrow | .assignment | .binary | .call | .cast | .comparison | .equality | .property
  | .grouping | .index | .literal | .logical | .nameRef | .nullRef | .nameList | .postfixed
  | .prefixed | .range | .concat | .ternary | .shift => true
  | _ => false

/-- Whether the kind is that of a node which passes a test. -/
def Kind.isNodeWith (test : NodeKind → Bool) : Kind → Bool
  | .token _ => false
  | .node kind => test kind

namespace Place

/-- Whether the place is viewed as a statement. -/
def isStatement (place : Place) : Bool := place.kind.isNodeWith NodeKind.isStatement

/-- Whether the place is viewed as an expression. -/
def isExpression (place : Place) : Bool := place.kind.isNodeWith NodeKind.isExpression

/-- Whether the place is viewed as a reference to a name. -/
def isNameRef (place : Place) : Bool := place.kind.isNodeWith NodeKind.isNameRef

/-- Whether the place is of one kind of node. -/
def isA (kind : NodeKind) (place : Place) : Bool := place.kind == .node kind

/-- The statements right below. -/
def statements (place : Place) : List Place := place.nodes.filter isStatement

/-- The expressions right below. -/
def expressions (place : Place) : List Place := place.nodes.filter isExpression

/-- The nodes of one kind right below. -/
def nodesOf (kind : NodeKind) (place : Place) : List Place := place.nodes.filter (isA kind)

/-- The statement right below with the given number, counted from zero. -/
def statement? (n : Nat) (place : Place) : Option Place := place.statements[n]?

/-- The expression right below with the given number, counted from zero. -/
def expression? (n : Nat) (place : Place) : Option Place := place.expressions[n]?

/-- The first node of one kind right below. -/
def nodeOf? (kind : NodeKind) (place : Place) : Option Place := place.nodes.find? (isA kind)

/-- The first token right below of one of the given kinds. -/
def tokenOf? (kinds : List TokenKind) (place : Place) : Option Place :=
  place.tokens.find? fun token => kinds.any (fun kind => token.kind == .token kind)

/-- The first token right below that is not trivia. -/
def firstToken? (place : Place) : Option Place :=
  place.tokens.find? fun token => !token.kind.passes TokenKind.isTrivia

/-- The first statement right below that starts after the first token of the given kind. -/
def statementAfter? (kind : TokenKind) (place : Place) : Option Place :=
  (place.tokenOf? [kind]).bind fun token =>
    place.nodes.find? fun node => token.stop ≤ node.start && node.isStatement

/-- The expression that an expression statement consists of. -/
def content? (place : Place) : Option Place :=
  if place.isA .exprStmt then place.expression? 0 else none

/-- The expression in the statement right below with the given number. -/
def contentOf? (n : Nat) (place : Place) : Option Place :=
  (place.statement? n).bind content?

/-- The first expression right below, if it is a reference to a name. -/
def leadingName? (place : Place) : Option Place :=
  (place.expression? 0).filter isNameRef

/-- The token that a reference to a name consists of. -/
def nameToken? (place : Place) : Option Place :=
  place.leadingName?.bind firstToken?

/-- One place lies somewhere below another. -/
inductive Below : Place → Place → Prop where
  | child {inner outer : Place} (member : inner ∈ outer.children) : Below inner outer
  | deeper {inner middle outer : Place} (member : inner ∈ middle.children)
      (below : Below middle outer) : Below inner outer

namespace Below

/-- What lies below a place is smaller. -/
theorem size_lt {inner outer : Place} (below : Below inner outer) :
    inner.tree.size < outer.tree.size := by
  -- Each step down makes the tree smaller.
  induction below with
  | child member => exact size_lt_of_mem_children member
  | deeper member _ ih => exact Nat.lt_trans (size_lt_of_mem_children member) ih

/-- Lying below is passed on. -/
theorem trans {inner middle outer : Place} (first : Below inner middle)
    (second : Below middle outer) : Below inner outer := by
  induction first with
  | child member => exact .deeper member second
  | deeper member _ ih => exact .deeper member (ih second)

end Below

/-- Nodes right below lie below. -/
theorem below_of_mem_nodes {node place : Place} (member : node ∈ place.nodes) :
    Below node place :=
  .child (List.mem_filter.mp member).1

/-- Statements right below lie below. -/
theorem below_of_mem_statements {inner place : Place} (member : inner ∈ place.statements) :
    Below inner place :=
  below_of_mem_nodes (List.mem_filter.mp member).1

/-- A numbered expression lies below. -/
theorem below_of_expression? {n : Nat} {inner place : Place}
    (found : place.expression? n = some inner) : Below inner place :=
  below_of_mem_nodes (List.mem_filter.mp (List.mem_of_getElem? found)).1

/-- A numbered statement lies below. -/
theorem below_of_statement? {n : Nat} {inner place : Place}
    (found : place.statement? n = some inner) : Below inner place :=
  below_of_mem_statements (List.mem_of_getElem? found)

/-- The first node of a kind lies below. -/
theorem below_of_nodeOf? {kind : NodeKind} {inner place : Place}
    (found : place.nodeOf? kind = some inner) : Below inner place :=
  below_of_mem_nodes (List.mem_of_find?_eq_some found)

/-- The content of a statement lies below it. -/
theorem below_of_content? {inner place : Place} (found : place.content? = some inner) :
    Below inner place := by
  unfold content? at found
  split at found
  · exact below_of_expression? found
  · cases found

/-- The content of a numbered statement lies below. -/
theorem below_of_contentOf? {n : Nat} {inner place : Place}
    (found : place.contentOf? n = some inner) : Below inner place := by
  obtain ⟨middle, statement, content⟩ := Option.bind_eq_some_iff.mp found
  exact (below_of_content? content).trans (below_of_statement? statement)

/-- A statement after a token lies below. -/
theorem below_of_statementAfter? {kind : TokenKind} {inner place : Place}
    (found : place.statementAfter? kind = some inner) : Below inner place := by
  obtain ⟨_, _, located⟩ := Option.bind_eq_some_iff.mp found
  exact below_of_mem_nodes (List.mem_of_find?_eq_some located)

/-- A leading name lies below. -/
theorem below_of_leadingName? {inner place : Place}
    (found : place.leadingName? = some inner) : Below inner place :=
  below_of_expression? (Option.eq_some_of_filter_eq_some found)

end Place

end Dxl
