/-
TreeLint/Format.lean

The formats in which reports are written.
-/
import TreeLint.Config.Basic
import TreeLint.Format.Json
import TreeLint.Format.Text

namespace TreeLint

/-- A format for reports. -/
inductive ReportFormat where
  | text (format : TextFormat)
  | json (format : JsonFormat)
  deriving Repr

namespace ReportFormat

/-- The format that settings ask for. -/
def ofSettings (format : OutputFormat) (colored verbose : Bool) : ReportFormat :=
  match format with
  | .text => .text { colored, showHelp := verbose }
  | .json => .json { pretty := true }

/-- A whole report. -/
def report : ReportFormat → Report → String
  | text f, r => f.report r
  | json f, r => f.report r

/-- One diagnostic. -/
def diagnostic : ReportFormat → Diagnostic → String
  | text f, d => f.diagnostic d
  | json f, d => f.diagnostic d

end ReportFormat

end TreeLint
