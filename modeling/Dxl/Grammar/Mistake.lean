import Dxl.Kind.Basic
import Dxl.Report

/-! Mistakes the grammar can find in a source text, and how they are put into words. -/

namespace Dxl

/-- A mistake, with what was found in the place where it was made. -/
inductive Mistake where
  /-- One particular token was needed. -/
  | expected (wanted got : TokenKind)
  /-- An operand was needed. -/
  | expectedExpression (got : TokenKind)
  /-- A qualifier has no effect. -/
  | ignoredQualifier (word : Keyword)
deriving DecidableEq

namespace Mistake

/-- Only an ignored qualifier leaves the meaning of the text clear. -/
def severity : Mistake → Severity
  | .expected _ _ | .expectedExpression _ => .error
  | .ignoredQualifier _ => .warning

/-- The wording of a mistake. -/
def message : Mistake → String
  | .expected wanted got => "Expected= " ++ wanted.dumpName ++ ". Got= " ++ got.dumpName
  | .expectedExpression got => "Expected expression start. Got= " ++ got.dumpName
  | .ignoredQualifier word => "ignored qualifier `" ++ word.spelling ++ "`"

/-- The remark that tells of a mistake made at an offset. -/
def remark (mistake : Mistake) (offset : Nat) : Remark :=
  ⟨mistake.severity, offset, mistake.message⟩

end Mistake

end Dxl
