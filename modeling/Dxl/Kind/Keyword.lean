/-! Reserved words of the language and their spelling. -/

namespace Dxl

/-- A reserved word, named for its spelling. -/
inductive Keyword where
  | andWord | boolWord | breakWord | byWord | caseWord | charWord | constWord | continueWord
  | defaultWord | doWord | elseWord | enumWord | falseWord | forWord | ifWord | inWord
  | includeWord | intWord | moduleWord | nullWord | objectWord | orWord | pragmaWord | realWord
  | returnWord | sizeofWord | staticWord | stringWord | structWord | switchWord | thenWord
  | trueWord | unionWord | voidWord | whileWord
deriving DecidableEq

/-- How a reserved word is written. -/
def Keyword.spelling : Keyword → String
  | .andWord => "and"
  | .boolWord => "bool"
  | .breakWord => "break"
  | .byWord => "by"
  | .caseWord => "case"
  | .charWord => "char"
  | .constWord => "const"
  | .continueWord => "continue"
  | .defaultWord => "default"
  | .doWord => "do"
  | .elseWord => "else"
  | .enumWord => "enum"
  | .falseWord => "false"
  | .forWord => "for"
  | .ifWord => "if"
  | .inWord => "in"
  | .includeWord => "#include"
  | .intWord => "int"
  | .moduleWord => "module"
  | .nullWord => "null"
  | .objectWord => "object"
  | .orWord => "or"
  | .pragmaWord => "pragma"
  | .realWord => "real"
  | .returnWord => "return"
  | .sizeofWord => "sizeof"
  | .staticWord => "static"
  | .stringWord => "string"
  | .structWord => "struct"
  | .switchWord => "switch"
  | .thenWord => "then"
  | .trueWord => "true"
  | .unionWord => "union"
  | .voidWord => "void"
  | .whileWord => "while"

/-- The name a reserved word has in tree dumps. -/
def Keyword.name : Keyword → String
  | .andWord => "KWAND"
  | .boolWord => "KWBOOL"
  | .breakWord => "KWBREAK"
  | .byWord => "KWBY"
  | .caseWord => "KWCASE"
  | .charWord => "KWCHAR"
  | .constWord => "KWCONST"
  | .continueWord => "KWCONTINUE"
  | .defaultWord => "KWDEFAULT"
  | .doWord => "KWDO"
  | .elseWord => "KWELSE"
  | .enumWord => "KWENUM"
  | .falseWord => "KWFALSE"
  | .forWord => "KWFOR"
  | .ifWord => "KWIF"
  | .inWord => "KWIN"
  | .includeWord => "KWINCLUDE"
  | .intWord => "KWINT"
  | .moduleWord => "KWMODULE"
  | .nullWord => "KWNULL"
  | .objectWord => "KWOBJECT"
  | .orWord => "KWOR"
  | .pragmaWord => "KWPRAGMA"
  | .realWord => "KWREAL"
  | .returnWord => "KWRETURN"
  | .sizeofWord => "KWSIZEOF"
  | .staticWord => "KWSTATIC"
  | .stringWord => "KWSTRING"
  | .structWord => "KWSTRUCT"
  | .switchWord => "KWSWITCH"
  | .thenWord => "KWTHEN"
  | .trueWord => "KWTRUE"
  | .unionWord => "KWUNION"
  | .voidWord => "KWVOID"
  | .whileWord => "KWWHILE"

/-- Every reserved word, in the order of the vocabulary. -/
def Keyword.all : List Keyword :=
  [.andWord, .boolWord, .breakWord, .byWord, .caseWord, .charWord, .constWord, .continueWord,
   .defaultWord, .doWord, .elseWord, .enumWord, .falseWord, .forWord, .ifWord, .inWord,
   .includeWord, .intWord, .moduleWord, .nullWord, .objectWord, .orWord, .pragmaWord, .realWord,
   .returnWord, .sizeofWord, .staticWord, .stringWord, .structWord, .switchWord, .thenWord,
   .trueWord, .unionWord, .voidWord, .whileWord]

/-- The reserved word spelled by a text, letter case included. -/
def Keyword.ofSpelling? (text : String) : Option Keyword :=
  -- No two words are spelled alike, so the first hit is the only one.
  Keyword.all.find? (fun word => word.spelling == text)

end Dxl
