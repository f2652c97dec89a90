import Dxl.Command.Arguments
import Dxl.Documents
import Dxl.Place.Dump
import Dxl.Text.Quoted
import Dxl.View.Highlight

/-! Running a command on a source text: what it prints, and how it ends. -/

namespace Dxl

/-- How a command ends. -/
inductive Ending where
  | done
  /-- It fails with a message. -/
  | failed (message : String)
  /-- The source text could not be parsed at all. -/
  | aborted (failure : Failure)
deriving DecidableEq

/-- What a command prints and how it ends. -/
structure Transcript where
  printed : String
  ending : Ending

/-- A position as people count it, from one. -/
def Position.show (position : Position) : String :=
  toString (position.line + 1) ++ ":" ++ toString (position.column + 1) ++ ": "

/-- The mark of a severity in front of a message. -/
def Severity.mark : Severity → String
  | .error => ""
  | .warning => "warning: "

namespace Document

/-- A remark on a line of its own. -/
def remarkLine (document : Document) (remark : Remark) : String :=
  (document.lines.position remark.offset).show ++ remark.severity.mark ++ remark.message ++ "\n"

/-- All remarks about a document. -/
def remarkLines (document : Document) : String :=
  String.join (document.parsed.report.remarks.map document.remarkLine)

/-- The tree of a document, or its outline. -/
def picture (document : Document) (asOutline : Bool) : String :=
  if asOutline then document.root.outline?.getD "" else document.root.dump

/-- The part of the text between two byte offsets. -/
def slice (document : Document) (start stop : Nat) : String :=
  -- Highlights begin and end between characters.
  String.Pos.Raw.extract document.text ⟨start⟩ ⟨stop⟩

/-- A highlight on a line of its own. -/
def highlightLine (document : Document) (highlight : Highlight) : String :=
  (document.lines.position highlight.start).show ++ highlight.kind.name ++ " "
    ++ quote (document.slice highlight.start highlight.stop) ++ "\n"

/-- A function on a line of its own. -/
def functionLine (entry : FunctionEntry) : String :=
  "Function " ++ entry.name ++ " @ " ++ toString entry.start ++ ".." ++ toString entry.stop ++ "\n"

/-- All highlights and functions of a document. -/
def highlightLines (document : Document) : String :=
  let highlights := Highlights.ofPlace document.root
  String.join (highlights.tokens.map document.highlightLine)
    ++ String.join (highlights.functions.map functionLine)

/-- Whether a report has no error, and how many remarks it has. -/
def verdict (document : Document) : Bool × String :=
  let report := document.parsed.report
  (report.errorCount == 0,
    toString report.errorCount ++ " errors and " ++ toString report.warningCount ++ " warnings")

/-- What a task prints for a document, and how it ends. -/
def transcript (document : Document) : Task → Transcript
  | .dump asOutline withHighlights =>
    ⟨document.remarkLines ++ document.picture asOutline ++ "\n"
      ++ (if withHighlights then document.highlightLines else ""), .done⟩
  | .check =>
    -- The verdict on a text with errors is not printed but reported as the failure.
    match document.verdict with
    | (true, summary) => ⟨document.remarkLines ++ summary ++ "\n", .done⟩
    | (false, summary) => ⟨document.remarkLines, .failed summary⟩

end Document

/-- Runs a task on the content of its file, which is missing if it could not be read. -/
def Invocation.run (invocation : Invocation) (content : Option String) : Transcript :=
  match content with
  | none => ⟨"", .failed ("unable to read " ++ invocation.path)⟩
  | some text =>
    match Document.ofText 0 text with
    | .ok document => document.transcript invocation.task
    | .error failure => ⟨"", .aborted failure⟩

end Dxl
