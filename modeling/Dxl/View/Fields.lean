import Dxl.View.Parts

/-! The fields of each view: its parts by name, for a reader who wants to see all of them. -/

namespace Dxl

/-- The name of the view of a node, if there is one. -/
def NodeKind.viewName? : NodeKind → Option String
  | .root => some "Stmt::Root"
  | .argList => some "Stmt::ArgList"
  | .arg => some "Stmt::Arg"
  | .paramList => some "Stmt::ParamList"
  | .param => some "Stmt::Param"
  | .typeRef => some "Stmt::TypeAnnotation"
  | .arrayDecl => some "Stmt::ArrayDecl"
  | .block => some "Stmt::Block"
  | .breakStmt => some "Stmt::Break"
  | .continueStmt => some "Stmt::Continue"
  | .exprStmt => some "Stmt::Expr"
  | .forStmt => some "Stmt::For"
  | .forInStmt => some "Stmt::ForIn"
  | .funcDecl => some "Stmt::FunctionDecl"
  | .ifStmt => some "Stmt::If"
  | .includeStmt => some "Stmt::Include"
  | .pragmaStmt => some "Stmt::Pragma"
  | .returnStmt => some "Stmt::Return"
  | .varDecl => some "Stmt::VariableDecl"
  | .whileStmt => some "Stmt::While"
  | .arrow => some "Expr::Arrow"
  | .assignment => some "Expr::Assignment"
  | .binary => some "Expr::Binary"
  | .call => some "Expr::Call"
  | .cast => some "Expr::Cast"
  | .comparison | .equality => some "Expr::Compare"
  | .property => some "Expr::Get"
  | .grouping => some "Expr::Grouping"
  | .index => some "Expr::Index"
  | .literal => some "Expr::Literal"
  | .logical => some "Expr::Logical"
  | .nameRef | .nullRef => some "Expr::NameRef"
  | .nameList => some "Expr::NameRefList"
  | .postfixed => some "Expr::Postfix"
  | .prefixed => some "Expr::Prefix"
  | .range => some "Expr::Range"
  | .concat => some "Expr::StringConcat"
  | .ternary => some "Expr::Ternary"
  | .shift => some "Expr::Write"
  | .ignored | .skipped => none

/-- What a field of a view holds. -/
inductive Field where
  | nothing
  | one (place : Place)
  | many (places : List Place)
  | text (written : String)

/-- A part that may be missing, as a field. -/
def Field.ofPart : Option Place → Field
  | none => .nothing
  | some place => .one place

/-- Parts that may be missing, as a field. -/
def Field.ofParts : Option (List Place) → Field
  | none => .nothing
  | some places => .many places

namespace Place

/-- The two operands and the operator of a construct. -/
def operandFields (place : Place) : List (String × Field) :=
  [("lhs", .ofPart (place.expression? 0)), ("rhs", .ofPart (place.expression? 1)),
   ("op", .ofPart place.operator?)]

/-- The keyword of a construct. -/
def keywordField (word : Keyword) (place : Place) : String × Field :=
  ("keyword", .ofPart (place.tokenOf? [.keyword word]))

/-- The type and the name that a declaration starts with. -/
def declarationFields (place : Place) : List (String × Field) :=
  [("typing", .ofPart place.declaredType?), ("name", .ofPart place.leadingName?)]

/-- The fields of the view of a node. -/
def fieldsOf (place : Place) : NodeKind → List (String × Field)
  | .root | .block => [("stmts", .many place.statements)]
  | .argList => [("args", .many (place.nodesOf .arg)), ("exprs", .many place.argumentContents)]
  | .arg => [("expr", .ofPart (place.contentOf? 0))]
  | .paramList => [("params", .many (place.nodesOf .param))]
  | .param => [("decl", .ofPart place.parameterDecl?)]
  | .typeRef | .nameRef | .nullRef => [("name", .ofPart place.firstToken?)]
  | .arrayDecl =>
    place.declarationFields ++
      [("count", .ofPart place.arraySize?), ("args", .ofPart (place.nodeOf? .argList))]
  | .breakStmt => [place.keywordField .breakWord]
  | .continueStmt => [place.keywordField .continueWord]
  | .exprStmt | .grouping => [("expr", .ofPart (place.expression? 0))]
  | .forStmt =>
    [("initializer", .ofPart (place.clause? 0)), ("condition", .ofPart (place.clause? 1)),
     ("increment", .ofPart (place.clause? 2)),
     ("body", .ofPart (place.statementAfter? (.sign .rightParen))), place.keywordField .forWord]
  | .forInStmt =>
    [("item", .ofPart (place.contentOf? 0)),
     ("parent", .ofPart (place.contentAfter? (.keyword .inWord))),
     ("step", .ofPart (place.contentAfter? (.keyword .byWord))),
     ("body", .ofPart (place.statementAfter? (.keyword .doWord))),
     ("for_keyword", .ofPart (place.tokenOf? [.keyword .forWord])),
     ("in_keyword", .ofPart (place.tokenOf? [.keyword .inWord])),
     ("do_keyword", .ofPart (place.tokenOf? [.keyword .doWord]))]
  | .funcDecl =>
    place.declarationFields ++
      [("params", .ofPart (place.nodeOf? .paramList)), ("body", .ofPart (place.nodeOf? .block))]
  | .ifStmt =>
    [("condition", .ofPart (place.contentOf? 0)), ("then_branch", .ofPart (place.statement? 1)),
     ("else_branch", .ofPart (place.statementAfter? (.keyword .elseWord))),
     ("if_keyword", .ofPart (place.tokenOf? [.keyword .ifWord])),
     ("else_keyword", .ofPart (place.tokenOf? [.keyword .elseWord]))]
  | .includeStmt => [place.keywordField .includeWord, ("path", .text place.includedPath)]
  | .pragmaStmt =>
    [place.keywordField .pragmaWord, ("name", .ofPart (place.tokenOf? [.name])),
     ("value", .ofPart (place.tokenOf? [.integer, .string]))]
  | .returnStmt => [("expr", .ofPart (place.contentOf? 0)), place.keywordField .returnWord]
  | .varDecl =>
    place.declarationFields ++
      [("names", .ofParts place.declaredNames?), ("value", .ofPart place.initialValue?)]
  | .whileStmt =>
    [("condition", .ofPart (place.contentOf? 0)),
     ("body", .ofPart (place.statementAfter? (.sign .rightParen))), place.keywordField .whileWord]
  | .assignment =>
    [("name", .ofPart place.leadingName?), ("target", .ofPart (place.expression? 0)),
     ("value", .ofPart (place.expression? 1)), ("op", .ofPart place.operator?)]
  | .arrow | .binary | .comparison | .equality | .logical | .shift => place.operandFields
  | .call => [("name", .ofPart place.leadingName?), ("args", .ofPart (place.nodeOf? .argList))]
  | .cast =>
    [("typing", .ofPart (place.nodeOf? .typeRef)), ("expr", .ofPart (place.expression? 0))]
  | .property =>
    [("name", .ofPart place.leadingName?), ("object", .ofPart (place.expression? 0)),
     ("property", .ofPart (place.expression? 1))]
  | .index =>
    [("name", .ofPart place.leadingName?), ("index", .ofPart (place.expression? 1)),
     ("end", .ofPart (place.expression? 2))]
  | .literal => [("value", .ofPart place.firstToken?)]
  | .nameList => [("names", .ofParts place.listedNames?)]
  | .postfixed | .prefixed =>
    [("expr", .ofPart (place.expression? 0)), ("op", .ofPart place.operator?)]
  | .range => [("start", .ofPart (place.expression? 0)), ("end", .ofPart (place.expression? 1))]
  | .concat => [("lhs", .ofPart (place.expression? 0)), ("rhs", .ofPart (place.expression? 1))]
  | .ternary =>
    [("condition", .ofPart (place.expression? 0)), ("then_branch", .ofPart (place.expression? 1)),
     ("else_branch", .ofPart (place.expression? 2))]
  | .ignored | .skipped => []

/-- The name of the view of a place and its fields, if there is a view of it. -/
def view? (place : Place) : Option (String × List (String × Field)) :=
  match place.kind with
  | .token _ => none
  | .node kind => kind.viewName?.map fun name => (name, place.fieldsOf kind)

end Place

end Dxl
