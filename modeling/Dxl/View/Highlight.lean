import Dxl.Lines
import Dxl.View.Outline

/-! Highlighting: which tokens stand out and why, and the functions a source text declares. -/

namespace Dxl

/-- Why a token stands out. -/
inductive HighlightKind where
  | function
  | variable
  | string
  | number
  | keyword
  | type
  | comment
deriving DecidableEq

namespace HighlightKind

/-- All reasons, in the order in which their numbers count. -/
def legend : List HighlightKind :=
  [.function, .variable, .string, .number, .keyword, .type, .comment]

/-- The name of a reason. -/
def name : HighlightKind → String
  | .function => "function"
  | .variable => "variable"
  | .string => "string"
  | .number => "number"
  | .keyword => "keyword"
  | .type => "type"
  | .comment => "comment"

/-- The number of a reason. -/
def ordinal (kind : HighlightKind) : Nat := legend.idxOf kind

end HighlightKind

/-- A token that stands out. -/
structure Highlight where
  kind : HighlightKind
  start : Nat
  stop : Nat
deriving DecidableEq

/-- A declared function: its name, the range of the declaration, and that of the name in it. -/
structure FunctionEntry where
  name : String
  start : Nat
  stop : Nat
  nameStart : Nat
  nameStop : Nat
deriving DecidableEq

/-- What stands out in a source text. -/
structure Highlights where
  tokens : List Highlight
  functions : List FunctionEntry

namespace Place

/-- The highlight of a token that may be missing. -/
def highlight (kind : HighlightKind) (found : Option Place) : List Highlight :=
  found.toList.map fun token => ⟨kind, token.start, token.stop⟩

/-- The highlights of the keywords of a construct, as far as they are there. -/
def keywordHighlights (place : Place) (words : List Keyword) : List Highlight :=
  words.flatMap fun word => highlight .keyword (place.tokenOf? [.keyword word])

/-- The highlight of a literal, whose token tells what it is. -/
def literalHighlight (place : Place) : List Highlight :=
  match place.firstToken? with
  | none => []
  | some token =>
    match token.kind with
    | .token .string => highlight .string (some token)
    | .token .integer | .token .real => highlight .number (some token)
    | _ => []

/-- The highlights that a node of the given kind has of its own. -/
def ownHighlightsOf (place : Place) : NodeKind → List Highlight
  | .typeRef => highlight .type place.firstToken?
  | .breakStmt => place.keywordHighlights [.breakWord]
  | .continueStmt => place.keywordHighlights [.continueWord]
  | .forStmt => place.keywordHighlights [.forWord]
  | .forInStmt => place.keywordHighlights [.forWord, .inWord, .doWord]
  | .ifStmt => place.keywordHighlights [.ifWord, .elseWord]
  | .includeStmt => place.keywordHighlights [.includeWord]
  | .pragmaStmt => place.keywordHighlights [.pragmaWord]
  | .returnStmt => place.keywordHighlights [.returnWord]
  | .whileStmt => place.keywordHighlights [.whileWord]
  | .funcDecl | .call => highlight .function place.nameToken?
  | .literal => place.literalHighlight
  | .nameRef | .nullRef => highlight .variable place.firstToken?
  | _ => []

/-- The highlights that a place has of its own, which include the comments right below it. -/
def ownHighlights (place : Place) : List Highlight :=
  let comments := place.tokens.filter fun token => token.kind == .token .comment
  let others := match place.kind with
    | .token _ => []
    | .node kind => place.ownHighlightsOf kind
  comments.map (fun token => ⟨.comment, token.start, token.stop⟩) ++ others

/-- The function that a place declares under a name. -/
def functionEntry? (place : Place) : Option FunctionEntry :=
  if place.isA .funcDecl then
    place.nameToken?.map fun name => ⟨name.text, place.start, place.stop, name.start, name.stop⟩
  else none

/-- Those of several parts that are there. -/
def present {place : Place} (found : List (Option (Part place))) : List (Part place) :=
  found.filterMap id

/-- The names that a declaration declares at once. -/
def declaredNames (place : Place) : List Place := place.declaredNames?.getD []

/-- Names that are declared at once lie below. -/
theorem below_of_mem_declaredNames {inner place : Place}
    (member : inner ∈ place.declaredNames) : Below inner place := by
  unfold declaredNames at member
  cases found : place.declaredNames? with
  | none => simp [found] at member
  | some names =>
    simp only [found, Option.getD_some] at member
    exact below_of_declaredNames? found member

/-- The parts of a node of the given kind that are looked at in turn. -/
def partsOf (place : Place) : NodeKind → List (Part place)
  | .root | .block => place.statementParts
  | .argList =>
    partsAmong (place.nodesOf .arg)
      fun member => below_of_mem_nodes (List.mem_filter.mp member).1
  | .arg | .returnStmt => present [place.contentPart? 0]
  | .paramList =>
    partsAmong (place.nodesOf .param)
      fun member => below_of_mem_nodes (List.mem_filter.mp member).1
  | .param => present [place.parameterPart?]
  | .arrayDecl =>
    present [place.declaredTypePart?, place.namePart?, place.arraySizePart?,
      place.nodePart? .argList]
  | .exprStmt | .grouping | .postfixed | .prefixed => present [place.operandPart? 0]
  | .forStmt =>
    present [place.clausePart? 0, place.clausePart? 1, place.clausePart? 2,
      place.statementPartAfter? (.sign .rightParen)]
  | .forInStmt =>
    present [place.contentPart? 0, place.contentPartAfter? (.keyword .inWord),
      place.contentPartAfter? (.keyword .byWord), place.statementPartAfter? (.keyword .doWord)]
  | .funcDecl =>
    present [place.declaredTypePart?, place.nodePart? .paramList, place.nodePart? .block]
  | .ifStmt =>
    present [place.contentPart? 0, place.statementPart? 1,
      place.statementPartAfter? (.keyword .elseWord)]
  | .varDecl =>
    present [place.declaredTypePart?, place.namePart?, place.initialValuePart?]
      ++ partsAmong place.declaredNames below_of_mem_declaredNames
  | .whileStmt => present [place.contentPart? 0, place.statementPartAfter? (.sign .rightParen)]
  | .arrow | .assignment | .binary | .comparison | .equality | .property | .logical | .range
  | .concat | .shift => present [place.operandPart? 0, place.operandPart? 1]
  | .call => present [place.nodePart? .argList]
  | .cast => present [place.nodePart? .typeRef, place.operandPart? 0]
  | .index => present [place.namePart?, place.operandPart? 1, place.operandPart? 2]
  | .ternary => present [place.operandPart? 0, place.operandPart? 1, place.operandPart? 2]
  | .nameList =>
    partsAmong (place.nodes.filter isNameRef)
      fun member => below_of_mem_nodes (List.mem_filter.mp member).1
  | .typeRef | .breakStmt | .continueStmt | .includeStmt | .pragmaStmt | .literal | .nameRef
  | .nullRef | .ignored | .skipped => []

/-- The parts of a place that are looked at in turn. -/
def parts (place : Place) : List (Part place) :=
  match place.kind with
  | .token _ => []
  | .node kind => place.partsOf kind

/-- A place and all its parts, their parts and so on, each place before its parts. -/
def reached (place : Place) : List Place :=
  place :: place.parts.flatMap fun ⟨part, _⟩ => reached part
termination_by place.tree.size
decreasing_by
  exact Below.size_lt (by assumption)

end Place

/-- The order of highlights: by start, and by end where the starts agree. -/
def Highlight.precedes (left right : Highlight) : Bool :=
  left.start < right.start || (left.start == right.start && left.stop ≤ right.stop)

/-- What stands out at a place and below it; highlights are put in order, equal ones as they were found. -/
def Highlights.ofPlace (place : Place) : Highlights :=
  if place.isStatement || place.isExpression then
    ⟨(place.reached.flatMap Place.ownHighlights).mergeSort Highlight.precedes,
      place.reached.filterMap Place.functionEntry?⟩
  else ⟨[], []⟩

/-- A highlight placed relative to the one before it. -/
structure RelativeHighlight where
  deltaLine : Nat
  deltaStart : Nat
  length : Nat
  kind : Nat
deriving DecidableEq

/-- The largest number that a relative highlight can hold. -/
def largestDelta : Nat := 0xffffffff

namespace Highlight

/-- How much of a highlight is on its first line. -/
def lengthOnLine (highlight : Highlight) (lines : LineIndex) : Nat :=
  let start := lines.position highlight.start
  let stop := lines.position highlight.stop
  if stop.line == start.line then stop.column - start.column
  else lines.offset ⟨start.line + 1, 0⟩ - highlight.start

/-- A highlight relative to a position before it, if all its numbers can be held. -/
def relative? (highlight : Highlight) (lines : LineIndex) (previous : Position) :
    Option RelativeHighlight :=
  let start := lines.position highlight.start
  let deltaLine := start.line - previous.line
  let deltaStart :=
    if start.line == previous.line then start.column - previous.column else start.column
  let length := highlight.lengthOnLine lines
  if deltaLine ≤ largestDelta && deltaStart ≤ largestDelta && length ≤ largestDelta then
    some ⟨deltaLine, deltaStart, length, highlight.kind.ordinal⟩
  else none

end Highlight

/-- Highlights relative to each other, the first of them to the given position. -/
def encodeFrom (lines : LineIndex) (previous : Position) :
    List Highlight → List RelativeHighlight
  | [] => []
  | highlight :: rest =>
    -- A highlight that cannot be held is left out, and the next one is relative to the one before.
    match highlight.relative? lines previous with
    | some relative => relative :: encodeFrom lines (lines.position highlight.start) rest
    | none => encodeFrom lines previous rest

/-- All highlights relative to each other, the first of them to the start of the text. -/
def Highlights.encode (highlights : Highlights) (lines : LineIndex) : List RelativeHighlight :=
  encodeFrom lines (lines.position 0) highlights.tokens

end Dxl
