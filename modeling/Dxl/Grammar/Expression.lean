import Dxl.Grammar.Operator
import Dxl.Grammar.Parser

/-! The rules for expressions, in which adjacent operands form calls, casts and joined texts. -/

namespace Dxl.Grammar

open Dxl.Parser

/-- An expression in the place of a statement. -/
def expressionStatement : Parser Unit :=
  nodeOf .exprStmt (call (.expression 0))

/-- Reads the type of a cast, and tells whether there is one. -/
def acceptType : Parser Bool := do
  if ← atType then
    bumpAs .typeRef
    return true
  else
    return false

/-- A group or a cast between parentheses; tells which of the two it is. -/
def group : Parser NodeKind :=
  node do
    require (.sign .leftParen)
    let isCast ← acceptType
    call (.expression 0)
    require (.sign .rightParen)
    return if isCast then .cast else .grouping

/-- The arguments between the parentheses of a call, or the single one without them. -/
def argumentList : Parser Unit :=
  nodeOf .argList do
    if ← accept (.sign .leftParen) then
      call .arguments
      require (.sign .rightParen)
    else
      nodeOf .arg expressionStatement

/-- Makes a call of an operand, or a cast if a type follows it; tells which of the two it is. -/
def application : Parser NodeKind :=
  wrap do
    if ← atType then
      bumpAs .typeRef
      return .cast
    else
      argumentList
      return .call

/-- One argument, up to the comma after it. -/
def argument : Parser Unit :=
  nodeOf .arg do
    expressionStatement
    if ← nextIs (.sign .rightParen) then return else require (.sign .comma)

/-- One argument after the other, as long as each of them reads something. -/
def arguments : Parser Unit := do
  if ← nextIs (.sign .rightParen) then return
  else if ← atEnd then return
  else if ← progress argument then call .arguments
  else return

/-- The upper end of a slice, which may be missing. -/
def sliceEnd : Parser Unit := do
  if ← accept (.sign .colon) then
    if ← nextIs (.sign .rightBracket) then pure () else call (.expression 0)

/-- An index or a slice after an operand. -/
def indexed : Parser Unit :=
  wrapIn .index do
    require (.sign .leftBracket)
    call (.expression 0)
    sliceEnd
    require (.sign .rightBracket)

/-- An operator and its right operand after an operand. -/
def rightOperand (power : Nat) (kind : NodeKind) : Parser Unit :=
  wrapIn kind do
    bump
    call (.expression power)

/-- An operand that is joined to the one before it. -/
def adjoined (power : Nat) : Parser Unit :=
  wrapIn .concat (call (.expression power))

/-- The two branches of a choice after its condition. -/
def branches (power : Nat) : Parser Unit :=
  wrapIn .ternary do
    bump
    call (.expression power)
    if ← expect (.sign .colon) then call (.expression power)

/-- The upper end of a range, which may be missing before a closing bracket. -/
def upperEnd (power : Nat) : Parser Unit :=
  wrapIn .range do
    bump
    if ← nextIs (.sign .rightBracket) then pure () else call (.expression power)

/-- A binary operator and its right operand, after an operand of the given kind. -/
def infixed (operand : NodeKind) (power right : Nat) : InfixForm → Parser Unit
  | .binary made => do
    rightOperand right made
    call (.operators made power)
  | .choice => do
    branches right
    call (.operators .ternary power)
  | .range => do
    upperEnd right
    call (.operators .range power)
  | .name => do
    -- A name joins some operands as text and ends the expression either way.
    if operand.takesName then
      if ← nextIsOneOf [.name, .integer, .real] then adjoined right

/-- The operators after an operand, which is the one of the open frame. -/
def operators (operand : NodeKind) (power : Nat) : Parser Unit := do
  let kind := (← look).kind
  -- Only binary operators can be too loose to take the operand.
  match kind.continuation operand with
  | .stop => return
  | .call =>
    let made ← application
    call (.operators made power)
  | .index =>
    indexed
    call (.operators .index power)
  | .access made =>
    rightOperand accessPower made
    call (.operators made power)
  | .step =>
    wrapIn .postfixed bump
    call (.operators .postfixed power)
  | .string =>
    adjoined stringPower
    call (.operators .concat power)
  | .regroup =>
    frame do
      let made ← group
      call (.operators made power)
  | .infixed left right form =>
    if left < power then return else infixed operand power right form

/-- An operand and the operators after it that bind at least as tightly as the given power. -/
def expression (power : Nat) : Parser Unit := do
  let kind := (← look).kind
  match kind.operandStart with
  | .atom made =>
    frame do
      bumpAs made
      call (.operators made power)
  | .group =>
    frame do
      let made ← group
      call (.operators made power)
  | .empty => bump
  | .operator =>
    frame do
      nodeOf .prefixed do
        bump
        call (.expression prefixPower)
      call (.operators .prefixed power)
  | .nothing =>
    -- A token that cannot begin an operand is passed over, unless it ends the statement.
    if ← atStatementEnd then return
    else if ← atEnd then return
    else
      report (.expectedExpression kind)
      bumpAs .skipped

end Dxl.Grammar
