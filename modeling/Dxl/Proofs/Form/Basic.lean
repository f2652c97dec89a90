import Dxl.Grammar.Operator
import Dxl.Proofs.Tree.Leaves
import Dxl.Proofs.Tree.Shape

/-! Forms: which tokens and nodes a node of each kind is put together of, in which order. -/

namespace Dxl

/-- The kind of a token that carries meaning. -/
def Kind.proper? : Kind → Option TokenKind
  | .token kind => if kind.isTrivia then none else some kind
  | .node _ => none

/-- What a node is put together of: a token, or a node that begins with one. -/
inductive Constituent where
  | token (kind : TokenKind)
  /-- A node, which may have no token to begin with. -/
  | node (kind : NodeKind) (first : Option TokenKind)

/-- The token that a constituent is or begins with. -/
def Constituent.first? : Constituent → Option TokenKind
  | .token kind => some kind
  | .node _ first => first

/-- The token that constituents begin with. -/
def leading (constituents : List Constituent) : Option TokenKind :=
  constituents.findSome? Constituent.first?

/-- What two portions begin with is what the first of them begins with, if there is such a token. -/
theorem leading_append (left right : List Constituent) :
    leading (left ++ right) = (leading left).or (leading right) :=
  List.findSome?_append

/-- What begins with a token that is known begins with it. -/
@[simp] theorem leading_token_cons (kind : TokenKind) (rest : List Constituent) :
    leading (.token kind :: rest) = some kind := rfl

/-- What begins with a node that begins with a token begins with that token. -/
@[simp] theorem leading_node_cons (kind : NodeKind) (first : TokenKind)
    (rest : List Constituent) : leading (.node kind (some first) :: rest) = some first := rfl

namespace Tree

/-- The first token of a tree that carries meaning. -/
def first? (tree : Tree) : Option TokenKind :=
  tree.leaves.findSome? fun leaf => leaf.1.proper?

/-- What a tree is as a child of a node; trivia does not count. -/
def constituent? (tree : Tree) : Option Constituent :=
  match tree with
  | .leaf kind _ => kind.proper?.map .token
  | .node (.node kind) _ => some (.node kind tree.first?)
  | .node (.token _) _ => none

/-- What several trees are as children of a node. -/
def constituents (trees : List Tree) : List Constituent :=
  trees.filterMap constituent?

/-- The first tree comes first. -/
theorem constituents_cons (tree : Tree) (rest : List Tree) :
    constituents (tree :: rest) = tree.constituent?.toList ++ constituents rest := by
  rw [constituents, List.filterMap_cons]
  cases tree.constituent? <;> rfl

/-- Several trees in two portions. -/
@[simp] theorem constituents_append (left right : List Tree) :
    constituents (left ++ right) = constituents left ++ constituents right :=
  List.filterMap_append

end Tree

namespace Form

section

/-- A constituent that may be left out. -/
inductive Optionally (constituent : Constituent) : List Constituent → Prop
  | absent : Optionally constituent []
  | present : Optionally constituent [constituent]

/-- A node that may be left out. -/
inductive OptionalNode (kind : NodeKind) : List Constituent → Prop
  | absent : OptionalNode kind []
  | present (first : Option TokenKind) : OptionalNode kind [.node kind first]

/-- Groups beside an operand of the given kind, each of which may have grown to something else that begins with its parenthesis. -/
inductive Beside : NodeKind → List Constituent → Prop
  | none (kind : NodeKind) : Beside kind []
  | more {kind made : NodeKind} {rest : List Constituent} : kind.takesParentheses = false →
    made.isOperand = true → Beside made rest →
    Beside kind (.node made (some (.sign .leftParen)) :: rest)

/-- An operand that begins with the given token, and groups beside it. -/
inductive Chain (first : TokenKind) : List Constituent → Prop
  | mk {kind : NodeKind} {rest : List Constituent} : kind.isOperand = true → Beside kind rest →
    Chain first (.node kind (some first) :: rest)

/-- What ends a statement. -/
def Ends (constituents : List Constituent) : Prop :=
  ∀ constituent ∈ constituents, ∃ kind, constituent = .token kind ∧ kind.endsStatement = true

/-- Line breaks that end nothing. -/
def LineEnds (constituents : List Constituent) : Prop :=
  ∀ constituent ∈ constituents, constituent = .token .hardBreak

/-- A statement and what ends it. -/
inductive Statement : List Constituent → Prop
  | mk {kind : NodeKind} {first : Option TokenKind} {ends : List Constituent} :
    kind.isAction = true → Ends ends → Statement (.node kind first :: ends)

/-- What can stand in a block or at the top. -/
def Items (constituents : List Constituent) : Prop :=
  ∀ constituent ∈ constituents, (∃ kind, constituent = .token kind ∧ kind.endsStatement = true)
    ∨ ∃ kind first, constituent = .node kind first ∧ kind.isItem = true

/-- A value that may be given to a name. -/
inductive Value : List Constituent → Prop
  | absent : Value []
  | given (first : Option TokenKind) : Value [.token (.sign .equal), .node .exprStmt first]

/-- What stands before the name of a declaration, where the type may be missing. -/
inductive Header : List Constituent → Prop
  | typed (first : Option TokenKind) {mark : List Constituent} :
    Optionally (.token (.sign .ampersand)) mark → Header (.node .typeRef first :: mark)
  | untyped {mark : List Constituent} : Optionally (.token (.sign .ampersand)) mark → Header mark

/-- A variable with its value, or several names after one type. -/
inductive VarDecl : List Constituent → Prop
  | single {header value : List Constituent} (first : Option TokenKind) : Header header →
    Value value → VarDecl (header ++ .node .nameRef first :: value)
  | several {mark : List Constituent} (type first : Option TokenKind) :
    Optionally (.token (.sign .ampersand)) mark →
    VarDecl (.node .typeRef type :: (mark ++ [.node .nameList first]))

/-- Names after the first of a declaration, each after a comma and with its value. -/
inductive FurtherNames : List Constituent → Prop
  | none : FurtherNames []
  | more {name value rest : List Constituent} : OptionalNode .nameRef name → Value value →
    FurtherNames rest → FurtherNames (.token (.sign .comma) :: (name ++ value ++ rest))

/-- Several names with their values. -/
inductive NameList : List Constituent → Prop
  | mk {value rest : List Constituent} (first : Option TokenKind) : Value value →
    FurtherNames rest → NameList (.node .nameRef first :: (value ++ rest))

/-- Parameters between commas. -/
inductive Parameters : List Constituent → Prop
  | last (first : Option TokenKind) : Parameters [.node .param first]
  | more {rest : List Constituent} (first : Option TokenKind) : Parameters rest →
    Parameters (.node .param first :: .token (.sign .comma) :: rest)

/-- An item of an array. -/
inductive ArrayItem : List Constituent → Prop
  | type (kind : TokenKind) : ArrayItem [.token kind]
  | value {mark : List Constituent} (first : Option TokenKind) :
    Optionally (.token (.sign .ampersand)) mark → ArrayItem (mark ++ [.node .exprStmt first])

/-- Items of an array between commas, of which the last may stand behind them. -/
inductive ArrayItems : List Constituent → Prop
  | none : ArrayItems []
  | last {item : List Constituent} : ArrayItem item → ArrayItems item
  | more {item rest : List Constituent} : ArrayItem item → ArrayItems rest →
    ArrayItems (item ++ .token (.sign .comma) :: rest)

/-- Arguments. -/
def Arguments (constituents : List Constituent) : Prop :=
  ∀ constituent ∈ constituents, ∃ first, constituent = .node .arg first

/-- An argument, with the comma after it. -/
inductive Argument : List Constituent → Prop
  | mk {comma : List Constituent} (first : Option TokenKind) :
    Optionally (.token (.sign .comma)) comma → Argument (.node .exprStmt first :: comma)

/-- A jump, where a value may be returned. -/
inductive Return : List Constituent → Prop
  | mk {value : List Constituent} : OptionalNode .exprStmt value →
    Return (.token (.keyword .returnWord) :: value)

/-- The clauses of a counting loop, of which there are up to three. -/
inductive Clauses : List Constituent → Prop
  | one (first : Option TokenKind) : Clauses [.node .exprStmt first]
  | two (first second : Option TokenKind) :
    Clauses [.node .exprStmt first, .token (.sign .semicolon), .node .exprStmt second]
  | three (first second third : Option TokenKind) :
    Clauses [.node .exprStmt first, .token (.sign .semicolon), .node .exprStmt second,
      .token (.sign .semicolon), .node .exprStmt third]

/-- The step of a loop over members, which may be missing. -/
inductive Step : List Constituent → Prop
  | absent : Step []
  | given (first : Option TokenKind) :
    Step [.token (.keyword .byWord), .node .exprStmt first]

/-- The branches of a choice after its condition. -/
inductive Branches : List Constituent → Prop
  | short (first : Option TokenKind) :
    Branches [.token (.keyword .thenWord), .node .exprStmt first]
  | one {body : List Constituent} : Statement body → Branches body
  | both {body other : List Constituent} : Statement body → Statement other →
    Branches (body ++ .token (.keyword .elseWord) :: other)

end

section

variable (clean : Prop)

/-- A token that is left out only where there are errors. -/
inductive Needed (kind : TokenKind) : List Constituent → Prop
  | present : Needed kind [.token kind]
  | absent : ¬ clean → Needed kind []

/-- What an expression leaves: nothing, an empty operand, a token that is passed over, or an operand with groups beside it. -/
inductive Operand : List Constituent → Prop
  | missing : Operand []
  | empty : Operand [.token (.sign .semicolon)]
  | skipped (first : Option TokenKind) : ¬ clean → Operand [.node .skipped first]
  | chain {operands : List Constituent} (first : TokenKind) : Chain first operands →
    Operand operands

/-- What a declaration or a statement leaves, after a qualifier that has no effect. -/
inductive Declared : List Constituent → Prop
  | declaration {qualifier : List Constituent} {kind : NodeKind} (first : Option TokenKind) :
    OptionalNode .ignored qualifier → kind.isDeclaration = true →
    Declared (qualifier ++ [.node kind first])
  | skipped {qualifier : List Constituent} (first : Option TokenKind) :
    OptionalNode .ignored qualifier → ¬ clean → Declared (qualifier ++ [.node .skipped first])
  | statement {qualifier statement : List Constituent} : OptionalNode .ignored qualifier →
    Statement statement → Declared (qualifier ++ statement)

/-- A block between braces. -/
inductive Block : List Constituent → Prop
  | mk {items close : List Constituent} : Items items → Needed clean (.sign .rightBrace) close →
    Block (.token (.sign .leftBrace) :: (items ++ close))

/-- The size of an array, up to the closing bracket. -/
inductive Size : List Constituent → Prop
  | open : Size [.token (.sign .rightBracket)]
  | given {close : List Constituent} (first : Option TokenKind) :
    Needed clean (.sign .rightBracket) close → Size (.node .exprStmt first :: close)

/-- The values that may be given to an array. -/
inductive Values : List Constituent → Prop
  | absent : Values []
  | cut : ¬ clean → Values [.token (.sign .equal)]
  | given {close : List Constituent} (first : Option TokenKind) :
    Needed clean (.sign .rightBrace) close →
    Values (.token (.sign .equal) :: .token (.sign .leftBrace) :: .node .argList first :: close)

/-- An array with its size and its values. -/
inductive ArrayDecl : List Constituent → Prop
  | mk {header size values : List Constituent} (first : Option TokenKind) : Header header →
    Size clean size → Values clean values →
    ArrayDecl (header ++ .node .nameRef first :: .token (.sign .leftBracket) :: (size ++ values))

/-- A function with its parameters and its body, or a type that stands for one. -/
inductive FuncDecl : List Constituent → Prop
  | unnamed {mark : List Constituent} (type : Option TokenKind) :
    Optionally (.token (.sign .ampersand)) mark → FuncDecl (.node .typeRef type :: mark)
  | named {mark parameters close body : List Constituent} (type first : Option TokenKind) :
    Optionally (.token (.sign .ampersand)) mark → OptionalNode .paramList parameters →
    Needed clean (.sign .rightParen) close → OptionalNode .block body →
    FuncDecl (.node .typeRef type :: (mark ++ .node .nameRef first
      :: .token (.sign .leftParen) :: (parameters ++ close ++ body)))

/-- A parameter, which may be left out between commas. -/
inductive Parameter : List Constituent → Prop
  | absent : Parameter []
  | declaration {kind : NodeKind} (first : Option TokenKind) : kind.isDeclaration = true →
    Parameter [.node kind first]
  | skipped (first : Option TokenKind) : ¬ clean → Parameter [.node .skipped first]

/-- The name of a directive and its value. -/
inductive Pragma : List Constituent → Prop
  | bare : ¬ clean → Pragma [.token (.keyword .pragmaWord)]
  | named : ¬ clean → Pragma [.token (.keyword .pragmaWord), .token .name]
  | valued {value : List Constituent} :
    (value = [] ∨ value = [.token .integer] ∨ value = [.token .string]) →
    Pragma (.token (.keyword .pragmaWord) :: .token .name :: .token (.sign .comma) :: value)

/-- An included path, between angle brackets or as a string. -/
inductive Include : List Constituent → Prop
  | bracketed {parts close : List Constituent} :
    (∀ part ∈ parts, ∃ kind, part = .token kind
      ∧ kind ∈ [.name, .sign .backslash, .sign .slash, .sign .dot]) →
    Needed clean (.sign .greater) close →
    Include (.token (.keyword .includeWord) :: .token (.sign .less) :: (parts ++ close))
  | quoted {path : List Constituent} : Needed clean .string path →
    Include (.token (.keyword .includeWord) :: path)

/-- A choice, whose condition may stand without parentheses. -/
inductive If : List Constituent → Prop
  | plain (condition : Option TokenKind) :
    If [.token (.keyword .ifWord), .node .exprStmt condition]
  | plainThen (condition first : Option TokenKind) :
    If [.token (.keyword .ifWord), .node .exprStmt condition, .token (.keyword .thenWord),
      .node .exprStmt first]
  | cut (condition : Option TokenKind) : ¬ clean →
    If [.token (.keyword .ifWord), .token (.sign .leftParen), .node .exprStmt condition]
  | closed {lines branches : List Constituent} (condition : Option TokenKind) : LineEnds lines →
    Branches branches →
    If (.token (.keyword .ifWord) :: .token (.sign .leftParen) :: .node .exprStmt condition
      :: .token (.sign .rightParen) :: (lines ++ branches))

/-- A loop with a condition between parentheses. -/
inductive While : List Constituent → Prop
  | bare : ¬ clean → While [.token (.keyword .whileWord)]
  | cut (condition : Option TokenKind) : ¬ clean →
    While [.token (.keyword .whileWord), .token (.sign .leftParen), .node .exprStmt condition]
  | closed {body : List Constituent} (condition : Option TokenKind) : Statement body →
    While (.token (.keyword .whileWord) :: .token (.sign .leftParen) :: .node .exprStmt condition
      :: .token (.sign .rightParen) :: body)

/-- A counting loop. -/
inductive For : List Constituent → Prop
  | cut {clauses : List Constituent} : Clauses clauses → ¬ clean →
    For (.token (.keyword .forWord) :: .token (.sign .leftParen) :: clauses)
  | closed {clauses body : List Constituent} : Clauses clauses → Statement body →
    For (.token (.keyword .forWord) :: .token (.sign .leftParen)
      :: (clauses ++ .token (.sign .rightParen) :: body))

/-- The item of a loop over members and what it runs over, which may both be missing. -/
inductive Member : List Constituent → Prop
  | absent : Member []
  | cut (item : Option TokenKind) : ¬ clean → Member [.node .exprStmt item]
  | given (item whole : Option TokenKind) :
    Member [.node .exprStmt item, .token (.keyword .inWord), .node .exprStmt whole]

/-- A loop over the members of something. -/
inductive ForIn : List Constituent → Prop
  | mk {member step word body : List Constituent} : Member clean member → Step step →
    Needed clean (.keyword .doWord) word → Declared clean body →
    ForIn (.token (.keyword .forWord) :: (member ++ step ++ word ++ body))

/-- A group, which may have no operand. -/
inductive Grouping : List Constituent → Prop
  | mk {operand close : List Constituent} : Operand clean operand →
    Needed clean (.sign .rightParen) close →
    Grouping (.token (.sign .leftParen) :: (operand ++ close))

/-- A cast, with the type before its operand or after it. -/
inductive Cast : List Constituent → Prop
  | before {operand close : List Constituent} (type : Option TokenKind) : Operand clean operand →
    Needed clean (.sign .rightParen) close →
    Cast (.token (.sign .leftParen) :: .node .typeRef type :: (operand ++ close))
  | after {kind : NodeKind} (first type : Option TokenKind) : kind.isOperand = true →
    Cast [.node kind first, .node .typeRef type]

/-- The arguments of a call, or the items of an array. -/
inductive ArgList : List Constituent → Prop
  | closed {arguments close : List Constituent} : Arguments arguments →
    Needed clean (.sign .rightParen) close →
    ArgList (.token (.sign .leftParen) :: (arguments ++ close))
  | single (first : Option TokenKind) : ArgList [.node .arg first]
  | items {items : List Constituent} : ArrayItems items → ArgList items

/-- The upper end of a slice, which may be missing. -/
inductive Slice : List Constituent → Prop
  | absent : Slice []
  | given {operand : List Constituent} : Operand clean operand →
    Slice (.token (.sign .colon) :: operand)

/-- An index or a slice after an operand. -/
inductive Index : List Constituent → Prop
  | mk {kind : NodeKind} {operand slice close : List Constituent} (first : Option TokenKind) :
    kind.isOperand = true → Operand clean operand → Slice clean slice →
    Needed clean (.sign .rightBracket) close →
    Index (.node kind first :: .token (.sign .leftBracket) :: (operand ++ slice ++ close))

/-- A condition and the two branches that it decides on. -/
inductive Ternary : List Constituent → Prop
  | cut {kind : NodeKind} {operand : List Constituent} (first : Option TokenKind) :
    kind.isOperand = true → Operand clean operand → ¬ clean →
    Ternary (.node kind first :: .token (.sign .question) :: operand)
  | whole {kind : NodeKind} {operand other : List Constituent} (first : Option TokenKind) :
    kind.isOperand = true → Operand clean operand → Operand clean other →
    Ternary (.node kind first :: .token (.sign .question)
      :: (operand ++ .token (.sign .colon) :: other))

/-- Two operands with a token between them. -/
inductive Joined (operator : TokenKind → Prop) : List Constituent → Prop
  | mk {kind : NodeKind} {token : TokenKind} {operand : List Constituent}
    (first : Option TokenKind) : kind.isOperand = true → operator token → Operand clean operand →
    Joined operator (.node kind first :: .token token :: operand)

/-- Two operands next to each other. -/
inductive Concat : List Constituent → Prop
  | mk {kind : NodeKind} {operand : List Constituent} (first : Option TokenKind) :
    kind.isOperand = true → Operand clean operand → Concat (.node kind first :: operand)

end

end Form

open Form in
/-- The constituents that a node can be put together of; some are left out or passed over only where there are errors. -/
def NodeKind.Forms (clean : Prop) : NodeKind → List Constituent → Prop
  | .root => Items
  | .pragmaStmt => Pragma clean
  | .includeStmt => Include clean
  | .arrayDecl => ArrayDecl clean
  | .block => Block clean
  | .breakStmt => (· = [.token (.keyword .breakWord)])
  | .continueStmt => (· = [.token (.keyword .continueWord)])
  | .exprStmt => Operand clean
  | .forStmt => For clean
  | .forInStmt => ForIn clean
  | .funcDecl => FuncDecl clean
  | .ifStmt => If clean
  | .returnStmt => Return
  | .varDecl => VarDecl
  | .whileStmt => While clean
  | .arrow => Joined clean fun operator =>
    operator = .sign .minusArrow ∨ operator = .sign .lessMinus
  | .assignment => Joined clean (·.infixNode? = some .assignment)
  | .binary => Joined clean (·.infixNode? = some .binary)
  | .call => fun constituents => ∃ kind first list, kind.isOperand = true
    ∧ constituents = [.node kind first, .node .argList list]
  | .cast => Cast clean
  | .comparison => Joined clean (·.infixNode? = some .comparison)
  | .equality => Joined clean (·.infixNode? = some .equality)
  | .property => Joined clean (· = .sign .dot)
  | .grouping => Grouping clean
  | .index => Index clean
  | .literal => fun constituents => ∃ kind, kind.operandStart = .atom .literal
    ∧ constituents = [.token kind]
  | .logical => Joined clean (·.infixNode? = some .logical)
  | .postfixed => fun constituents => ∃ kind first operator operand, kind.isOperand = true
    ∧ operator.continuation operand = .step ∧ constituents = [.node kind first, .token operator]
  | .prefixed => fun constituents => ∃ operator operand, operator.operandStart = .operator
    ∧ Operand clean operand ∧ constituents = .token operator :: operand
  | .range => Joined clean (· = .sign .colon)
  | .concat => Concat clean
  | .ternary => Ternary clean
  | .shift => Joined clean (·.infixNode? = some .shift)
  | .nullRef => fun constituents => ∃ kind, kind.operandStart = .atom .nullRef
    ∧ constituents = [.token kind]
  | .paramList => Parameters
  | .param => Parameter clean
  | .argList => ArgList clean
  | .arg => Argument
  | .typeRef => fun constituents => ∃ kind text, kind.namesType text = true
    ∧ constituents = [.token kind]
  | .nameRef => fun constituents => ∃ kind, kind.operandStart = .atom .nameRef
    ∧ constituents = [.token kind]
  | .nameList => NameList
  | .ignored => fun constituents => ∃ kind, (kind = .keyword .constWord ∨ kind = .keyword .staticWord)
    ∧ constituents = [.token kind]
  | .skipped => fun _ => ¬ clean

namespace Tree

/-- A tree in which every node is put together as its kind demands. -/
inductive Formed (clean : Prop) : Tree → Prop
  | leaf (kind : TokenKind) (text : String) : Formed clean (.leaf (.token kind) text)
  | node {kind : NodeKind} {children : List Tree} : (∀ child ∈ children, Formed clean child) →
    kind.Forms clean (constituents children) → Formed clean (.node (.node kind) children)

variable {clean : Prop}

/-- A tree that is formed begins with the token that it has as a constituent. -/
theorem Formed.first?_eq {tree : Tree} (formed : tree.Formed clean) :
    tree.first? = tree.constituent?.bind Constituent.first? := by
  cases formed with
  | leaf kind text =>
    simp only [first?, constituent?, leaves_leaf, List.findSome?_cons, List.findSome?_nil]
    cases Kind.proper? (.token kind) <;> rfl
  | node => rfl

/-- A node begins with the token that its constituents begin with. -/
theorem first?_node {kind : Kind} {children : List Tree}
    (formed : ∀ child ∈ children, child.Formed clean) :
    (node kind children).first? = leading (constituents children) := by
  -- Both sides look through the children from left to right.
  induction children with
  | nil => simp [first?, leading, constituents]
  | cons child rest ih =>
    have others := ih fun other member => formed other (by simp [member])
    have own := (formed child (by simp)).first?_eq
    rw [constituents_cons, leading_append, ← others]
    simp only [first?, leaves_node, List.flatMap_cons, List.findSome?_append] at own ⊢
    rw [own]
    cases child.constituent? with
    | none => rfl
    | some constituent =>
      simp only [Option.bind_some, Option.toList_some, leading, List.findSome?_cons]
      cases constituent.first? <;> rfl

end Tree

end Dxl
