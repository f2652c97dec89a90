import Dxl.View.Parts

/-! Outlines: what a source text consists of, one line for each part of interest. -/

namespace Dxl

/-- A piece of the outline of a place. -/
inductive Piece (place : Place) where
  | text (written : String)
  /-- A part on a line of its own, so many levels deeper. -/
  | line (levels : Nat) (part : Place.Part place)
  /-- A part on the same line. -/
  | inline (part : Place.Part place)

namespace Place

/-- A part that may be missing, on a line of its own. -/
def partLine {place : Place} (found : Option (Part place)) : List (Piece place) :=
  (found.map (Piece.line 1)).toList

/-- Parts on lines of their own, so many levels deeper. -/
def partLines {place : Place} (levels : Nat) (found : List (Part place)) : List (Piece place) :=
  found.map (Piece.line levels)

/-- A part that may be missing, after a tag on the same line. -/
def tagged {place : Place} (tag : String) (found : Option (Part place)) : List (Piece place) :=
  .text (tag ++ ", ") :: (found.map Piece.inline).toList

/-- The text of a token that may be missing. -/
def textOf (found : Option Place) : String :=
  (found.map text).getD ""

/-- The text of a token that may be missing, after a tag on the same line. -/
def taggedText {place : Place} (tag : String) (found : Option Place) : List (Piece place) :=
  [.text (tag ++ ", " ++ textOf found)]

/-- The text of the type that a declaration starts with, after an arrow. -/
def typeText (place : Place) : List (Piece place) :=
  [.text (" => " ++ textOf (place.declaredType?.bind firstToken?))]

/-- The expressions in the first list of arguments. -/
def arguments (place : Place) : List Place :=
  ((place.nodeOf? .argList).map argumentContents).getD []

/-- The parameters in the first list of parameters. -/
def parameters (place : Place) : List Place :=
  ((place.nodeOf? .paramList).map (nodesOf .param)).getD []

/-- Arguments lie below. -/
theorem below_of_mem_arguments {inner place : Place} (member : inner ∈ place.arguments) :
    Below inner place := by
  -- They are parts of the list, which is a child.
  unfold arguments at member
  cases found : place.nodeOf? .argList with
  | none => simp [found] at member
  | some list =>
    simp only [found, Option.map_some, Option.getD_some] at member
    exact (below_of_mem_argumentContents member).trans (below_of_nodeOf? found)

/-- Parameters lie below. -/
theorem below_of_mem_parameters {inner place : Place} (member : inner ∈ place.parameters) :
    Below inner place := by
  -- They are children of the list, which is a child.
  unfold parameters at member
  cases found : place.nodeOf? .paramList with
  | none => simp [found] at member
  | some list =>
    simp only [found, Option.map_some, Option.getD_some] at member
    exact (below_of_mem_nodes (List.mem_filter.mp member).1).trans (below_of_nodeOf? found)

/-- The first expression right below, on a line of its own. -/
def firstOperand (place : Place) : List (Piece place) :=
  partLine (place.operandPart? 0)

/-- The second expression right below, on a line of its own. -/
def secondOperand (place : Place) : List (Piece place) :=
  partLine (place.operandPart? 1)

/-- The third expression right below, on a line of its own. -/
def thirdOperand (place : Place) : List (Piece place) :=
  partLine (place.operandPart? 2)

/-- The name that a declaration declares, on a line of its own. -/
def nameLine (place : Place) : List (Piece place) :=
  partLine place.namePart?

/-- The expression in the first statement right below, on a line of its own. -/
def firstContent (place : Place) : List (Piece place) :=
  partLine (place.contentPart? 0)

/-- The statement after a token, on a line of its own. -/
def statementLine (place : Place) (kind : TokenKind) : List (Piece place) :=
  partLine (place.statementPartAfter? kind)

/-- The operator after a tag, and the two operands below it. -/
def operation (place : Place) (tag : String) : List (Piece place) :=
  taggedText tag place.operator? ++ place.firstOperand ++ place.secondOperand

/-- The outline of a node of the given kind, in pieces. -/
def piecesOf (place : Place) : NodeKind → List (Piece place)
  | .root => .text "Root" :: partLines 1 place.statementParts
  | .arrayDecl =>
    .text "StmtArrayDecl" :: place.nameLine ++ partLine place.arraySizePart?
      ++ partLines 2 (partsAmong place.arguments below_of_mem_arguments)
  | .block => .text "StmtBlock" :: partLines 2 place.statementParts
  | .breakStmt => [.text "StmtBreak"]
  | .continueStmt => [.text "StmtContinue"]
  | .exprStmt => .text "StmtExpr" :: place.firstOperand
  | .forStmt =>
    .text "StmtFor" :: partLine (place.clausePart? 0)
      ++ partLine (place.clausePart? 1)
      ++ partLine (place.clausePart? 2)
      ++ place.statementLine (.sign .rightParen)
  | .forInStmt =>
    .text "StmtForIn" :: place.firstContent
      ++ partLine (place.contentPartAfter? (.keyword .inWord))
      ++ place.statementLine (.keyword .doWord)
  | .funcDecl =>
    .text "StmtFunctionDecl" :: place.nameLine ++ place.typeText
      ++ partLines 1 (partsAmong place.parameters below_of_mem_parameters)
      ++ partLine (place.nodePart? .block)
  | .ifStmt =>
    .text "StmtIf" :: place.firstContent ++ partLine (place.statementPart? 1)
      ++ place.statementLine (.keyword .elseWord)
  | .returnStmt => .text "StmtReturn" :: place.firstContent
  | .varDecl =>
    .text "StmtVariableDecl" :: place.nameLine ++ place.typeText
      ++ partLine place.initialValuePart?
  | .whileStmt =>
    .text "StmtWhile" :: place.firstContent ++ place.statementLine (.sign .rightParen)
  | .param => .text "Param" :: partLine place.parameterPart?
  | .arrow => place.operation "ExprArrow"
  | .assignment => place.operation "ExprAssignment"
  | .binary => place.operation "ExprBinary"
  | .comparison | .equality => place.operation "ExprCompare"
  | .logical => place.operation "ExprLogical"
  | .call =>
    tagged "ExprCall" place.namePart?
      ++ partLines 2 (partsAmong place.arguments below_of_mem_arguments)
  | .cast =>
    taggedText "ExprCast" ((place.nodeOf? .typeRef).bind firstToken?) ++ place.firstOperand
  | .property =>
    tagged "ExprGet" (place.operandPart? 0) ++ place.secondOperand
  | .grouping => .text "ExprGrouping" :: place.firstOperand
  | .index =>
    tagged "ExprIndex" place.namePart? ++ place.secondOperand
      ++ place.thirdOperand
  | .literal => taggedText "ExprLiteral" place.firstToken?
  | .nameRef | .nullRef => taggedText "ExprNameRef" place.firstToken?
  | .postfixed => taggedText "ExprPostfix" place.operator? ++ place.firstOperand
  | .prefixed => taggedText "ExprPrefix" place.operator? ++ place.firstOperand
  | .range => .text "ExprRange" :: place.firstOperand ++ place.secondOperand
  | .concat => .text "ExprStringConcat" :: place.firstOperand ++ place.secondOperand
  | .ternary =>
    .text "ExprTernary" :: place.firstOperand ++ place.secondOperand ++ place.thirdOperand
  | .shift => .text "ExprWrite" :: place.firstOperand ++ place.secondOperand
  | .argList | .arg | .paramList | .typeRef | .includeStmt | .pragmaStmt | .nameList =>
    [.text "Not Implemented"]
  | .ignored | .skipped => []

/-- The outline of a place, in pieces. -/
def pieces (place : Place) : List (Piece place) :=
  match place.kind with
  | .token _ => []
  | .node kind => place.piecesOf kind

/-- The start of a line at the given depth. -/
def lineStart (depth : Nat) : String :=
  "\n" ++ "".pushn ' ' (2 * depth)

/-- The outline of a place which is shown at the given depth. -/
def outlineAt (depth : Nat) (place : Place) : String :=
  -- A part on the same line begins anew at depth zero.
  String.join (place.pieces.map fun
    | .text written => written
    | .line levels ⟨part, _⟩ => lineStart (depth + levels) ++ outlineAt (depth + levels) part
    | .inline ⟨part, _⟩ => outlineAt 0 part)
termination_by place.tree.size
decreasing_by
  all_goals exact Below.size_lt (by assumption)

/-- The outline of a place, if it has a view. -/
def outline? (place : Place) : Option String :=
  if place.isStatement || place.isExpression then some (place.outlineAt 0) else none

end Place

end Dxl
