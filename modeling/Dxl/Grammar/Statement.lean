import Dxl.Grammar.Expression

/-! The rules for declarations and statements. -/

namespace Dxl.Grammar

open Dxl.Parser

/-- Reads on to a token that is likely to start anew. -/
def recovery : Parser Unit := do
  if ← atEnd then return
  else if ← nextIsOneOf [.sign .semicolon, .keyword .forWord, .keyword .whileWord,
      .keyword .returnWord, .hardBreak] then return
  else
    bump
    call .recovery

/-- Notes that a name is missing and passes over what stands in its place. -/
def nameless : Parser NodeKind := do
  missing .name
  call .recovery
  return .skipped

/-- Statements between braces. -/
def block : Parser Unit :=
  nodeOf .block do
    require (.sign .leftBrace)
    call .blockItems
    require (.sign .rightBrace)

/-- The parameters of a function between parentheses, if there are any. -/
def parameterList : Parser Unit := do
  if ← expect (.sign .leftParen) then
    if ← nextIs (.sign .rightParen) then pure ()
    else nodeOf .paramList (call .parameters)

/-- The body of a function, which may be missing. -/
def functionBody : Parser Unit := do
  if ← nextIs (.sign .leftBrace) then block

/-- The parameters and the body of a function. -/
def functionRest : Parser NodeKind := do
  parameterList
  require (.sign .rightParen)
  functionBody
  return .funcDecl

/-- A value given to a name, which may be missing. -/
def initialValue : Parser Unit := do
  if ← accept (.sign .equal) then expressionStatement

/-- A name after a comma, which may be missing. -/
def furtherName : Parser Unit := do
  if ← nextIs .name then bumpAs .nameRef

/-- Each further name of a declaration, with its value if it has one. -/
def furtherNames : Parser Unit := do
  if ← accept (.sign .comma) then
    furtherName
    initialValue
    call .furtherNames

/-- More names declared together with the one that is the operand of the open frame. -/
def nameList : Parser Unit := do
  if ← nextIs (.sign .comma) then wrapIn .nameList (call .furtherNames)

/-- One item of an array. -/
def arrayItem : Parser Unit := do
  if ← atType then bump
  else
    skip (.sign .ampersand)
    expressionStatement

/-- The items of an array, of which the first missing comma is the last. -/
def arrayItems : Parser Unit := do
  if ← nextIs (.sign .rightBrace) then return
  else if ← atEnd then return
  else
    arrayItem
    if ← accept (.sign .comma) then call .arrayItems

/-- The size of an array, which may be left out. -/
def arraySize : Parser Unit := do
  if ← accept (.sign .rightBracket) then pure ()
  else
    expressionStatement
    require (.sign .rightBracket)

/-- The values given to an array, which may be missing. -/
def arrayValues : Parser Unit := do
  if ← accept (.sign .equal) then
    if ← expect (.sign .leftBrace) then
      nodeOf .argList (call .arrayItems)
      require (.sign .rightBrace)

/-- The size and the items of an array. -/
def arrayRest : Parser NodeKind := do
  arraySize
  arrayValues
  return .arrayDecl

/-- The end of a declared variable; only some declarations may go on to more names. -/
def variableEnd (several : Bool) : Parser NodeKind :=
  if several then do
    nameList
    return .varDecl
  else return .varDecl

/-- What follows the name of a variable. -/
def variableRest (several : Bool) : Parser NodeKind := do
  if ← accept (.sign .equal) then
    expressionStatement
    variableEnd several
  else if ← accept (.sign .leftBracket) then arrayRest
  else variableEnd several

/-- A declared name and all that follows it; tells what is declared. -/
def declarator (several : Bool) : Parser NodeKind :=
  frame do
    bumpAs .nameRef
    if ← nextIs (.sign .leftParen) then functionRest
    else variableRest several

/-- A declaration that starts with a type. -/
def typedDeclaration : Parser NodeKind :=
  node do
    bumpAs .typeRef
    skip (.sign .ampersand)
    if ← nextIs .name then declarator true
    else nameless

/-- One parameter, whose type or whose name may be missing. -/
def parameter : Parser NodeKind :=
  node do
    if ← atType then
      bumpAs .typeRef
      skip (.sign .ampersand)
      if ← nextIs .name then declarator false
      else
        -- A type alone stands for a function.
        return .funcDecl
    else
      skip (.sign .ampersand)
      if ← nextIs .name then
        bumpAs .nameRef
        variableRest false
      else nameless

/-- One parameter after the other, between commas. -/
def parameters : Parser Unit := do
  nodeOf .param do
    if ← nextIsOneOf [.sign .comma, .sign .rightParen] then pure ()
    else let _ ← parameter
  if ← accept (.sign .comma) then call .parameters

/-- A directive for the interpreter. -/
def pragma : Parser Unit :=
  nodeOf .pragmaStmt do
    require (.keyword .pragmaWord)
    if ← expect .name then
      if ← expect (.sign .comma) then
        if ← nextIsOneOf [.integer, .string] then bump

/-- The parts of a path, up to the closing angle bracket. -/
def pathParts : Parser Unit := do
  if ← nextIs (.sign .greater) then return
  else if ← atEnd then return
  else if ← nextIsOneOf [.name, .sign .backslash, .sign .slash, .sign .dot] then
    bump
    call .pathParts

/-- An inclusion of another source text. -/
def inclusion : Parser Unit :=
  nodeOf .includeStmt do
    require (.keyword .includeWord)
    if ← accept (.sign .less) then
      call .pathParts
      require (.sign .greater)
    else
      require .string

/-- The node of a jump that starts with the given token. -/
def jumpNode : TokenKind → NodeKind
  | .keyword .breakWord => .breakStmt
  | .keyword .continueWord => .continueStmt
  | _ => .returnStmt

/-- The value after a jump with the given keyword, if it returns one. -/
def jumpValue (keyword : TokenKind) : Parser Unit :=
  if keyword == .keyword .returnWord then do
    if ← atStatementEnd then return
    else if ← nextIs (.sign .rightBrace) then return
    else if ← atEnd then return
    else expressionStatement
  else return

/-- A jump, with a value if it returns one. -/
def jump : Parser NodeKind :=
  node do
    let kind := (← look).kind
    bump
    jumpValue kind
    return jumpNode kind

/-- What follows a block on the condition that it belongs to. -/
def alternative : Parser Unit := do
  if ← accept (.keyword .elseWord) then
    match (← look).kind with
    | .keyword .ifWord => call .conditional
    | .sign .leftBrace => block
    | _ => call .statement

/-- What follows the condition between parentheses. -/
def conditionalBody : Parser Unit := do
  call .lineEnds
  if ← nextIs (.sign .leftBrace) then
    call .statement
    alternative
  else if ← accept (.keyword .thenWord) then
    expressionStatement
  else
    call .statement
    if ← accept (.keyword .elseWord) then call .statement

/-- A choice, whose condition may stand without parentheses. -/
def conditional : Parser Unit :=
  nodeOf .ifStmt do
    require (.keyword .ifWord)
    if ← accept (.sign .leftParen) then
      expressionStatement
      if ← expect (.sign .rightParen) then conditionalBody
    else
      expressionStatement
      if ← accept (.keyword .thenWord) then expressionStatement

/-- The body of a loop. -/
def loopBody : Parser Unit := do
  if ← nextIs (.sign .leftBrace) then block else call .statement

/-- A loop with a condition. -/
def whileLoop : Parser Unit :=
  nodeOf .whileStmt do
    require (.keyword .whileWord)
    if ← expect (.sign .leftParen) then
      expressionStatement
      if ← expect (.sign .rightParen) then loopBody

/-- The clauses of a counting loop after the first, which may be missing. -/
def furtherClauses : Parser Unit := do
  if ← accept (.sign .semicolon) then
    expressionStatement
    if ← accept (.sign .semicolon) then expressionStatement

/-- The header between parentheses and the body of a counting loop. -/
def countingRest : Parser Unit := do
  expressionStatement
  furtherClauses
  if ← expect (.sign .rightParen) then loopBody

/-- The item of a loop over members and what it runs over, which may both be missing. -/
def member : Parser Unit := do
  if ← nextIs .name then
    expressionStatement
    if ← expect (.keyword .inWord) then expressionStatement

/-- The step of a loop over members, which may be missing. -/
def memberStep : Parser Unit := do
  if ← accept (.keyword .byWord) then expressionStatement

/-- The header and the body of a loop over the members of something. -/
def memberRest : Parser Unit := do
  member
  memberStep
  require (.keyword .doWord)
  call .declaration

/-- A loop that counts or goes over members. -/
def forLoop : Parser NodeKind :=
  node do
    require (.keyword .forWord)
    if ← accept (.sign .leftParen) then
      countingRest
      return .forStmt
    else
      memberRest
      return .forInStmt

/-- A statement that begins with a token of the given kind, without what ends it. -/
def simpleStatement : TokenKind → Parser Unit
  | .sign .leftBrace => block
  | .keyword .ifWord => call .conditional
  | .keyword .whileWord => whileLoop
  | .keyword .forWord => do let _ ← forLoop
  | .keyword .returnWord | .keyword .breakWord | .keyword .continueWord => do let _ ← jump
  | .keyword .pragmaWord => pragma
  | .keyword .includeWord => inclusion
  | _ => expressionStatement

/-- A statement and what ends it. -/
def statement : Parser Unit := do
  simpleStatement (← look).kind
  call .statementEnds

/-- Warns of a qualifier. -/
def warnOfQualifier : TokenKind → Parser Unit
  | .keyword word => report (.ignoredQualifier word)
  | _ => return

/-- A qualifier, which is read and has no effect. -/
def qualifier : Parser Unit := do
  if ← nextIsOneOf [.keyword .constWord, .keyword .staticWord] then
    warnOfQualifier (← look).kind
    bumpAs .ignored

/-- A declaration or a statement. -/
def declaration : Parser Unit := do
  qualifier
  if ← atType then
    let _ ← typedDeclaration
  else
    call .statement
    call .statementEnds

/-- Reads while statements end. -/
def statementEnds : Parser Unit := do
  if ← atStatementEnd then
    bump
    call .statementEnds

/-- Reads while lines end. -/
def lineEnds : Parser Unit := do
  if ← accept .hardBreak then call .lineEnds

/-- One declaration after the other, up to a closing brace. -/
def blockItems : Parser Unit := do
  if ← nextIs (.sign .rightBrace) then return
  else if ← atEnd then return
  else if ← atStatementEnd then
    bump
    call .blockItems
  else
    call .declaration
    call .blockItems

/-- One declaration after the other, up to the end of the text. -/
def program : Parser Unit := do
  if ← atEnd then return
  else if ← atStatementEnd then
    bump
    call .program
  else
    call .declaration
    call .program

end Dxl.Grammar
