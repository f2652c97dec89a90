import Dxl.Kind.BuiltinType
import Dxl.Kind.Keyword
import Dxl.Kind.Sign

/-! Kinds of tokens and of tree nodes, their dump names, and the classes of tokens the grammar uses. -/

namespace Dxl

/-- What a token is; the end of the text counts as a token of its own. -/
inductive TokenKind where
  | sign (mark : Sign)
  | keyword (word : Keyword)
  /-- A line comment or a block comment. -/
  | comment
  /-- Text in single or double quotes. -/
  | string
  /-- A number without fraction and exponent. -/
  | integer
  /-- A number with a fraction or an exponent. -/
  | real
  /-- A word that is not reserved. -/
  | name
  /-- A run of spaces. -/
  | spaces
  /-- A run of tabs. -/
  | tabs
  /-- A line break inside a statement. -/
  | softBreak
  /-- A line break that ends a statement. -/
  | hardBreak
  /-- The empty token after everything else. -/
  | endOfText
  /-- A character that begins no token. -/
  | unknown
deriving DecidableEq

/-- What an inner node of a syntax tree stands for. -/
inductive NodeKind where
  /-- A whole source text. -/
  | root
  /-- A directive `pragma name, value`. -/
  | pragmaStmt
  /-- An inclusion `#include <path>` or `#include "path"`. -/
  | includeStmt
  /-- An array declaration `type name[count] = ..`. -/
  | arrayDecl
  /-- Statements between braces. -/
  | block
  /-- The jump `break`. -/
  | breakStmt
  /-- The jump `continue`. -/
  | continueStmt
  /-- An expression in the place of a statement. -/
  | exprStmt
  /-- A loop `for (init; cond; step) body`. -/
  | forStmt
  /-- A loop `for item in parent by step do body`. -/
  | forInStmt
  /-- A function declaration `type name(params) body`. -/
  | funcDecl
  /-- A choice `if (cond) body else body`. -/
  | ifStmt
  /-- The jump `return expr`. -/
  | returnStmt
  /-- A variable declaration `type name = value`. -/
  | varDecl
  /-- A loop `while (cond) body`. -/
  | whileStmt
  /-- An attribute access `a -> b` or `a <- b`. -/
  | arrow
  /-- An assignment `a = b`, `a += b` and so on. -/
  | assignment
  /-- An arithmetic operation `a + b`, `a * b` and so on. -/
  | binary
  /-- A call `f(a, b)` or `f a`. -/
  | call
  /-- A cast `(type expr)` or `expr type`. -/
  | cast
  /-- An ordering test `a < b`, `a >= b` and so on. -/
  | comparison
  /-- An equality test `a == b` or `a != b`. -/
  | equality
  /-- A property access `a.b`. -/
  | property
  /-- A parenthesised expression. -/
  | grouping
  /-- An index `a[b]`. -/
  | index
  /-- A literal value. -/
  | literal
  /-- A logical operation `a && b`, `a or b` and so on. -/
  | logical
  /-- A step `a++` or `a--`. -/
  | postfixed
  /-- An operator before its operand. -/
  | prefixed
  /-- A range `a:b`. -/
  | range
  /-- Two adjacent expressions, joined as texts. -/
  | concat
  /-- A choice `a ? b : c`. -/
  | ternary
  /-- A shift or stream write `a << b` or `a >> b`. -/
  | shift
  /-- The reference `null`. -/
  | nullRef
  /-- The parameters of a function. -/
  | paramList
  /-- One parameter. -/
  | param
  /-- The arguments of a call or the items of an array. -/
  | argList
  /-- One argument. -/
  | arg
  /-- A mention of a type. -/
  | typeRef
  /-- A mention of a name. -/
  | nameRef
  /-- Several names declared together. -/
  | nameList
  /-- A qualifier that is accepted and has no effect. -/
  | ignored
  /-- Tokens passed over after a mistake. -/
  | skipped
deriving DecidableEq

/-- The kind of a tree element, which is a token's or a node's. -/
inductive Kind where
  | token (kind : TokenKind)
  | node (kind : NodeKind)
deriving DecidableEq

/-- The name a token kind has in tree dumps. -/
def TokenKind.dumpName : TokenKind → String
  | .sign mark => mark.name
  | .keyword word => word.name
  | .comment => "COMMENT"
  | .string => "STRING"
  | .integer => "INTEGER"
  | .real => "REAL"
  | .name => "IDENT"
  | .spaces => "SPACES"
  | .tabs => "TABS"
  | .softBreak => "EOL"
  | .hardBreak => "END"
  | .endOfText => "EOF"
  | .unknown => "LEXERROR"

/-- The name a node kind has in tree dumps. -/
def NodeKind.dumpName : NodeKind → String
  | .root => "TREEROOT"
  | .pragmaStmt => "STMTPRAGMA"
  | .includeStmt => "STMTINCLUDE"
  | .arrayDecl => "STMTARRAYDECL"
  | .block => "STMTBLOCK"
  | .breakStmt => "STMTBREAK"
  | .continueStmt => "STMTCONTINUE"
  | .exprStmt => "STMTEXPR"
  | .forStmt => "STMTFOR"
  | .forInStmt => "STMTFORIN"
  | .funcDecl => "STMTFUNCDECL"
  | .ifStmt => "STMTIF"
  | .returnStmt => "STMTRETURN"
  | .varDecl => "STMTVARDECL"
  | .whileStmt => "STMTWHILE"
  | .arrow => "EXPRARROW"
  | .assignment => "EXPRASSIGNMENT"
  | .binary => "EXPRBINARY"
  | .call => "EXPRCALL"
  | .cast => "EXPRCAST"
  | .comparison => "EXPRCOMPARE"
  | .equality => "EXPREQUALITY"
  | .property => "EXPRGET"
  | .grouping => "EXPRGROUPING"
  | .index => "EXPRINDEX"
  | .literal => "EXPRLITERAL"
  | .logical => "EXPRLOGICAL"
  | .postfixed => "EXPRPOSTFIX"
  | .prefixed => "EXPRPREFIX"
  | .range => "EXPRRANGE"
  | .concat => "EXPRSTRINGCONCAT"
  | .ternary => "EXPRTERNARY"
  | .shift => "EXPRWRITE"
  | .nullRef => "NULL"
  | .paramList => "PARAMLIST"
  | .param => "PARAM"
  | .argList => "ARGLIST"
  | .arg => "ARG"
  | .typeRef => "TYPEREF"
  | .nameRef => "NAMEREF"
  | .nameList => "NAMEREFLIST"
  | .ignored => "WARNINGNODE"
  | .skipped => "ERRORNODE"

/-- The name a kind has in tree dumps. -/
def Kind.dumpName : Kind → String
  | .token kind => kind.dumpName
  | .node kind => kind.dumpName

/-- Every token kind, in the order of the vocabulary. -/
def TokenKind.all : List TokenKind :=
  Sign.all.map .sign ++ Keyword.all.map .keyword ++
    [.comment, .string, .integer, .real, .name, .spaces, .tabs, .softBreak, .hardBreak,
     .endOfText, .unknown]

/-- Every node kind, in the order of the vocabulary. -/
def NodeKind.all : List NodeKind :=
  [.root, .pragmaStmt, .includeStmt, .arrayDecl, .block, .breakStmt, .continueStmt, .exprStmt,
   .forStmt, .forInStmt, .funcDecl, .ifStmt, .returnStmt, .varDecl, .whileStmt, .arrow,
   .assignment, .binary, .call, .cast, .comparison, .equality, .property, .grouping, .index,
   .literal, .logical, .postfixed, .prefixed, .range, .concat, .ternary, .shift, .nullRef,
   .paramList, .param, .argList, .arg, .typeRef, .nameRef, .nameList, .ignored, .skipped]

/-- Every kind, tokens before nodes. -/
def Kind.all : List Kind :=
  TokenKind.all.map .token ++ NodeKind.all.map .node

/-- The kind with the given dump name. -/
def Kind.ofDumpName? (name : String) : Option Kind :=
  -- Dump names are distinct, so the first hit is the only one.
  Kind.all.find? (fun kind => kind.dumpName == name)

/-- The place of a kind in the vocabulary, counted from zero. -/
def Kind.ordinal (kind : Kind) : Nat :=
  Kind.all.idxOf kind

/-- Whether a kind belongs to tokens. -/
def Kind.isToken : Kind → Bool
  | .token _ => true
  | .node _ => false

/-- Whether a kind belongs to inner nodes. -/
def Kind.isNode (kind : Kind) : Bool :=
  !kind.isToken

/-- Tokens that only separate others and carry no meaning. -/
def TokenKind.isTrivia : TokenKind → Bool
  | .comment | .spaces | .tabs | .softBreak => true
  | _ => false

/-- Tokens that end a statement. -/
def TokenKind.endsStatement : TokenKind → Bool
  | .sign .semicolon | .hardBreak => true
  | _ => false

/-- Signs that expect something to follow, so that a line break right after them ends nothing. -/
def Sign.continuesLine : Sign → Bool
  | .rightParen | .leftBrace | .rightBrace | .rightBracket | .lessMinus | .minusMinus
  | .minusArrow | .plusPlus => false
  | _ => true

/-- Tokens that expect something to follow, so that a line break right after them ends nothing. -/
def TokenKind.continuesLine : TokenKind → Bool
  | .sign mark => mark.continuesLine
  | .keyword .andWord | .keyword .orWord => true
  | _ => false

/-- Whether a token of this kind and text names a type: a type keyword or a predefined name. -/
def TokenKind.namesType (kind : TokenKind) (text : String) : Bool :=
  match kind with
  | .keyword .intWord | .keyword .stringWord | .keyword .voidWord | .keyword .realWord
  | .keyword .boolWord => true
  | .name => isBuiltinType text
  | _ => false

/-- Lifts a test on token kinds to all kinds; nodes fail it. -/
def Kind.passes (test : TokenKind → Bool) : Kind → Bool
  | .token kind => test kind
  | .node _ => false

end Dxl
