/-
TreeLint/Format/Json.lean

Reports for programs: the diagnostics with their payloads as named texts,
and a summary.  Absent and empty parts are left out.
-/
import TreeLint.Json.Printer
import TreeLint.Report

namespace TreeLint

/-- How a JSON report is laid out. -/
structure JsonFormat where
  pretty : Bool := false
  deriving DecidableEq, Repr, Inhabited

namespace JsonFormat

/-- A value in the layout. -/
def render (f : JsonFormat) (v : Json) : String :=
  if f.pretty then v.pretty else v.compact

/-- A diagnostic as an object. -/
def diagnosticValue (d : Diagnostic) : Json :=
  .ofFields ([("rule_id", .string d.ruleId), ("severity", Named.write d.severity),
      ("message", .string d.message), ("file", .string d.location.file.text),
      ("line", .nat d.location.line), ("column", .nat d.location.column),
      ("start", .nat d.span.start), ("length", .nat d.span.length)]
    ++ (if d.payload.entries.isEmpty then []
      else [("properties", .ofFields (d.payload.entries.map fun (k, v) => (k, .string v)))])
    ++ (d.sourceLine.map fun l => ("source_line", Json.string l)).toList
    ++ (d.help.map fun h => ("help", Json.string h)).toList
    ++ (if d.inTestCode then [("in_test_code", .bool true)] else [])
    ++ (if d.notes.isEmpty then [] else [("notes", .ofList .string d.notes)]))

/-- The summary of a report as an object. -/
def summaryValue (r : Report) : Json :=
  .ofFields [("units_processed", .nat r.unitsProcessed.toNat),
    ("units_with_errors", .nat r.unitsWithErrors.toNat),
    ("units_with_warnings", .nat r.unitsWithWarnings.toNat), ("error_count", .nat r.errorCount.toNat),
    ("warning_count", .nat r.warningCount.toNat), ("info_count", .nat r.infoCount.toNat),
    ("duration_ms", .nat (r.duration / 1000000)), ("cancelled", .bool r.cancelled)]

/-- One diagnostic. -/
def diagnostic (f : JsonFormat) (d : Diagnostic) : String :=
  f.render (diagnosticValue d)

/-- A whole report. -/
def report (f : JsonFormat) (r : Report) : String :=
  f.render (.ofFields [("diagnostics", .ofList diagnosticValue r.diagnostics),
    ("summary", summaryValue r)])

end JsonFormat

end TreeLint
