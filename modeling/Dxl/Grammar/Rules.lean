import Dxl.Grammar.Statement

/-! The grammar as a whole: what every rule reads. -/

namespace Dxl

/-- What each rule reads. -/
def Rule.body : Rule → Parser Unit
  | .program => Grammar.program
  | .declaration => Grammar.declaration
  | .statement => Grammar.statement
  | .blockItems => Grammar.blockItems
  | .conditional => Grammar.conditional
  | .parameters => Grammar.parameters
  | .furtherNames => Grammar.furtherNames
  | .arrayItems => Grammar.arrayItems
  | .expression power => Grammar.expression power
  | .operators operand power => Grammar.operators operand power
  | .arguments => Grammar.arguments
  | .statementEnds => Grammar.statementEnds
  | .lineEnds => Grammar.lineEnds
  | .pathParts => Grammar.pathParts
  | .recovery => Grammar.recovery

/-- How deeply calls of rules can nest, for a text with the given number of tokens. -/
def Rule.depthFor (tokens : Nat) : Nat :=
  -- Fewer than eight calls can nest without a token being read between them.
  8 * tokens

end Dxl
