import Dxl.Kind.Basic

/-! Names for the rules of the grammar, so that rules can refer to each other. -/

namespace Dxl

/-- The recursive rules of the grammar; a repetition is a rule that ends in itself. -/
inductive Rule where
  /-- Everything up to the end of the text. -/
  | program
  | declaration
  | statement
  /-- What stands between the braces of a block. -/
  | blockItems
  /-- A choice between statements. -/
  | conditional
  /-- The parameters of a function, of which there is at least one. -/
  | parameters
  /-- Further names after a comma. -/
  | furtherNames
  /-- The items of an array, up to a closing brace. -/
  | arrayItems
  /-- An operand and all operators that bind at least as tightly as the given power. -/
  | expression (power : Nat)
  /-- The operators after a finished operand of the given kind. -/
  | operators (operand : NodeKind) (power : Nat)
  /-- The arguments between the parentheses of a call. -/
  | arguments
  /-- Semicolons and line breaks that end a statement. -/
  | statementEnds
  /-- Line breaks that end a statement. -/
  | lineEnds
  /-- The parts of a path between angle brackets. -/
  | pathParts
  /-- Tokens passed over after a mistake. -/
  | recovery
deriving DecidableEq

end Dxl
