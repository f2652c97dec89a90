/-! Reports: the remarks made about a source text, in the order they were made. -/

namespace Dxl

/-- How serious a remark is. -/
inductive Severity where
  | error
  | warning
deriving DecidableEq

/-- A remark about the source text at a byte offset. -/
structure Remark where
  severity : Severity
  offset : Nat
  message : String
deriving DecidableEq

/-- The remarks about one source text, oldest first. -/
structure Report where
  remarks : List Remark
deriving DecidableEq

namespace Report

/-- A report without remarks. -/
def empty : Report := ⟨[]⟩

/-- A report with one more remark at its end. -/
def add (report : Report) (remark : Remark) : Report :=
  ⟨report.remarks ++ [remark]⟩

/-- The number of remarks of one severity. -/
def count (report : Report) (severity : Severity) : Nat :=
  report.remarks.countP (fun remark => remark.severity == severity)

/-- The number of errors. -/
def errorCount (report : Report) : Nat := report.count .error

/-- The number of warnings. -/
def warningCount (report : Report) : Nat := report.count .warning

/-- The number of all remarks. -/
def size (report : Report) : Nat := report.remarks.length

/-- Whether there is no remark. -/
def isEmpty (report : Report) : Bool := report.remarks.isEmpty

/-- Whether there is neither an error nor a warning. -/
def isPerfect (report : Report) : Bool :=
  report.errorCount == 0 && report.warningCount == 0

end Report

end Dxl
