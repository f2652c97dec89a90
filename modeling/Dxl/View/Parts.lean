import Dxl.View.Basic

/-! Parts of statements and expressions, each found anew among the children of its node. -/

namespace Dxl

/-- The operators of an assignment. -/
def assignmentOperators : List TokenKind :=
  [.sign .equal, .sign .plusEqual, .sign .minusEqual, .sign .starEqual, .sign .slashEqual,
   .sign .percentEqual, .sign .lessLessEqual, .sign .greaterGreaterEqual, .sign .ampersandEqual,
   .sign .caretEqual, .sign .pipeEqual]

/-- The operators of an arithmetic operation. -/
def binaryOperators : List TokenKind :=
  [.sign .plus, .sign .minus, .sign .star, .sign .slash, .sign .percent, .sign .ampersand]

/-- The operators of a comparison, whether of order or of equality. -/
def comparisonOperators : List TokenKind :=
  [.sign .equalEqual, .sign .bangEqual, .sign .greater, .sign .greaterEqual, .sign .less,
   .sign .lessEqual]

/-- The operators of a logical operation. -/
def logicalOperators : List TokenKind :=
  [.sign .pipePipe, .sign .ampersandAmpersand, .sign .pipe, .sign .caret, .keyword .andWord,
   .keyword .orWord]

/-- The operators before an operand. -/
def prefixOperators : List TokenKind :=
  [.sign .plusPlus, .sign .minusMinus, .sign .ampersand, .sign .plus, .sign .minus, .sign .tilde,
   .sign .bang, .keyword .sizeofWord, .keyword .nullWord]

/-- The operators after an operand. -/
def postfixOperators : List TokenKind := [.sign .plusPlus, .sign .minusMinus]

/-- The operators of an attribute access. -/
def arrowOperators : List TokenKind := [.sign .minusArrow, .sign .lessMinus]

/-- The operators of a shift. -/
def shiftOperators : List TokenKind := [.sign .lessLess, .sign .greaterGreater]

/-- The operators that a construct of the given kind is written with. -/
def NodeKind.operatorTokens : NodeKind → List TokenKind
  | .assignment => assignmentOperators
  | .binary => binaryOperators
  | .comparison | .equality => comparisonOperators
  | .logical => logicalOperators
  | .prefixed => prefixOperators
  | .postfixed => postfixOperators
  | .arrow => arrowOperators
  | .shift => shiftOperators
  | _ => []

/-- Whether a character opens or closes a string. -/
def isQuoteMark (c : Char) : Bool := c == '"' || c == '\''

/-- A text without a quote mark at its start and without one at its end. -/
def unquote (text : String) : String :=
  -- Either mark may be missing, and the two need not be alike.
  let opened := match text.toList with
    | c :: rest => if isQuoteMark c then rest else c :: rest
    | [] => []
  String.ofList (if opened.getLast?.any isQuoteMark then opened.dropLast else opened)

namespace Place

/-- The operator a construct is written with. -/
def operator? (place : Place) : Option Place :=
  match place.kind with
  | .node kind => place.tokenOf? kind.operatorTokens
  | .token _ => none

/-- The type a declaration starts with. -/
def declaredType? (place : Place) : Option Place := (place.statement? 0).filter (isA .typeRef)

/-- The references in a list of names, of which there has to be one. -/
def listedNames? (list : Place) : Option (List Place) :=
  match list.nodes.filter isNameRef with
  | [] => none
  | names => some names

/-- The names of a declaration that declares several at once. -/
def declaredNames? (place : Place) : Option (List Place) :=
  ((place.expression? 0).filter (isA .nameList)).bind listedNames?

/-- The value given to a declared variable. -/
def initialValue? (place : Place) : Option Place := place.nodes.findSome? content?

/-- The size of a declared array, which stands before the closing bracket. -/
def arraySize? (place : Place) : Option Place :=
  (place.tokenOf? [.sign .rightBracket]).bind fun bracket =>
    (place.nodes.filter fun node => node.stop ≤ bracket.start).findSome? content?

/-- The expression of an argument or of an item of an array. -/
def argumentContent? (place : Place) : Option Place :=
  if place.isA .arg then place.contentOf? 0 else place.content?

/-- The expressions in a list of arguments. -/
def argumentContents (list : Place) : List Place := list.nodes.filterMap argumentContent?

/-- What a parameter declares, if it has a name or is a function. -/
def parameterDecl? (place : Place) : Option Place :=
  place.nodes.find? fun node => node.isA .varDecl || node.isA .funcDecl || node.isA .arrayDecl

/-- The nodes up to the closing parenthesis, or all nodes if there is none. -/
def headerNodes (place : Place) : List Place :=
  match place.tokenOf? [.sign .rightParen] with
  | some paren => place.nodes.filter fun node => node.stop ≤ paren.start
  | none => place.nodes

/-- The expression between the parentheses of a loop with the given number. -/
def clause? (n : Nat) (place : Place) : Option Place :=
  ((place.headerNodes.filter isStatement)[n]?).bind content?

/-- The expression after a keyword. -/
def contentAfter? (kind : TokenKind) (place : Place) : Option Place :=
  (place.statementAfter? kind).bind content?

/-- The path of an inclusion as it is written, without its quotes or angle brackets. -/
def includedPath (place : Place) : String :=
  -- Whichever of a string and an opening bracket comes first decides on the form.
  let written := place.tokens.filter fun token => !token.kind.passes TokenKind.isTrivia
  match written.dropWhile fun token =>
      token.kind != .token .string && token.kind != .token (.sign .less) with
  | [] => ""
  | first :: rest =>
    if first.kind == .token .string then unquote first.text
    else String.join
      ((rest.takeWhile fun token => token.kind != .token (.sign .greater)).map text)

/-- A declared name in a list lies below the declaration. -/
theorem below_of_declaredNames? {inner place : Place} {names : List Place}
    (found : place.declaredNames? = some names) (member : inner ∈ names) : Below inner place := by
  -- The names are children of the list, which is a child of the declaration.
  obtain ⟨list, leading, listed⟩ := Option.bind_eq_some_iff.mp found
  have outer : Below list place := below_of_expression? (Option.eq_some_of_filter_eq_some leading)
  refine Below.trans ?_ outer
  unfold listedNames? at listed
  split at listed
  · cases listed
  · cases listed
    exact below_of_mem_nodes (List.mem_filter.mp member).1

/-- An initial value lies below its declaration. -/
theorem below_of_initialValue? {inner place : Place}
    (found : place.initialValue? = some inner) : Below inner place := by
  obtain ⟨node, member, content⟩ := List.exists_of_findSome?_eq_some found
  exact (below_of_content? content).trans (below_of_mem_nodes member)

/-- The size of an array lies below its declaration. -/
theorem below_of_arraySize? {inner place : Place}
    (found : place.arraySize? = some inner) : Below inner place := by
  obtain ⟨_, _, located⟩ := Option.bind_eq_some_iff.mp found
  obtain ⟨node, member, content⟩ := List.exists_of_findSome?_eq_some located
  exact (below_of_content? content).trans (below_of_mem_nodes (List.mem_filter.mp member).1)

/-- The expressions in a list of arguments lie below it. -/
theorem below_of_mem_argumentContents {inner list : Place}
    (member : inner ∈ list.argumentContents) : Below inner list := by
  obtain ⟨node, inNodes, content⟩ := List.mem_filterMap.mp member
  refine Below.trans ?_ (below_of_mem_nodes inNodes)
  unfold argumentContent? at content
  split at content
  · exact below_of_contentOf? content
  · exact below_of_content? content

/-- What a parameter declares lies below it. -/
theorem below_of_parameterDecl? {inner place : Place}
    (found : place.parameterDecl? = some inner) : Below inner place :=
  below_of_mem_nodes (List.mem_of_find?_eq_some found)

/-- A clause of a loop lies below it. -/
theorem below_of_clause? {n : Nat} {inner place : Place}
    (found : place.clause? n = some inner) : Below inner place := by
  obtain ⟨node, numbered, content⟩ := Option.bind_eq_some_iff.mp found
  have member := (List.mem_filter.mp (List.mem_of_getElem? numbered)).1
  refine (below_of_content? content).trans (below_of_mem_nodes ?_)
  unfold headerNodes at member
  split at member
  · exact (List.mem_filter.mp member).1
  · exact member

/-- The expression after a keyword lies below. -/
theorem below_of_contentAfter? {kind : TokenKind} {inner place : Place}
    (found : place.contentAfter? kind = some inner) : Below inner place := by
  obtain ⟨node, after, content⟩ := Option.bind_eq_some_iff.mp found
  exact (below_of_content? content).trans (below_of_statementAfter? after)

/-- A part of a place is something that lies below it. -/
abbrev Part (place : Place) := { part : Place // Below part place }

/-- What is found is a part if it lies below. -/
def partAt? {place : Place} (found : Option Place)
    (below : ∀ {inner : Place}, found = some inner → Below inner place) : Option (Part place) :=
  found.attach.map fun ⟨inner, same⟩ => ⟨inner, below same⟩

/-- All that is found are parts if it lies below. -/
def partsAmong {place : Place} (found : List Place)
    (below : ∀ {inner : Place}, inner ∈ found → Below inner place) : List (Part place) :=
  found.attach.map fun ⟨inner, member⟩ => ⟨inner, below member⟩

/-- A numbered expression, as a part. -/
def operandPart? (n : Nat) (place : Place) : Option (Part place) :=
  partAt? (place.expression? n) below_of_expression?

/-- A numbered statement, as a part. -/
def statementPart? (n : Nat) (place : Place) : Option (Part place) :=
  partAt? (place.statement? n) below_of_statement?

/-- The content of a numbered statement, as a part. -/
def contentPart? (n : Nat) (place : Place) : Option (Part place) :=
  partAt? (place.contentOf? n) below_of_contentOf?

/-- A clause of a loop, as a part. -/
def clausePart? (n : Nat) (place : Place) : Option (Part place) :=
  partAt? (place.clause? n) below_of_clause?

/-- The first node of a kind, as a part. -/
def nodePart? (kind : NodeKind) (place : Place) : Option (Part place) :=
  partAt? (place.nodeOf? kind) below_of_nodeOf?

/-- The statement after a token, as a part. -/
def statementPartAfter? (kind : TokenKind) (place : Place) : Option (Part place) :=
  partAt? (place.statementAfter? kind) below_of_statementAfter?

/-- The expression after a token, as a part. -/
def contentPartAfter? (kind : TokenKind) (place : Place) : Option (Part place) :=
  partAt? (place.contentAfter? kind) below_of_contentAfter?

/-- The leading name, as a part. -/
def namePart? (place : Place) : Option (Part place) :=
  partAt? place.leadingName? below_of_leadingName?

/-- The type that a declaration starts with, as a part. -/
def declaredTypePart? (place : Place) : Option (Part place) :=
  partAt? place.declaredType? fun found =>
    below_of_statement? (Option.eq_some_of_filter_eq_some found)

/-- The initial value, as a part. -/
def initialValuePart? (place : Place) : Option (Part place) :=
  partAt? place.initialValue? below_of_initialValue?

/-- The size of an array, as a part. -/
def arraySizePart? (place : Place) : Option (Part place) :=
  partAt? place.arraySize? below_of_arraySize?

/-- What a parameter declares, as a part. -/
def parameterPart? (place : Place) : Option (Part place) :=
  partAt? place.parameterDecl? below_of_parameterDecl?

/-- All statements, as parts. -/
def statementParts (place : Place) : List (Part place) :=
  partsAmong place.statements below_of_mem_statements

end Place

end Dxl
