/-
TreeLint/Format/Text.lean

Reports for people.  Diagnostics stand under their files, each with its
source line and carets under the flagged bytes, as far as they lie on that
line.  A summary follows.
-/
import TreeLint.Format.Style
import TreeLint.PathMap
import TreeLint.Report

namespace TreeLint

/-- What a text report shows. -/
structure TextFormat where
  colored : Bool := true
  showSource : Bool := true
  showHelp : Bool := false
  showStats : Bool := true
  deriving DecidableEq, Repr, Inhabited

namespace TextFormat

/-- A severity in its style. -/
def severity (f : TextFormat) (s : Severity) : String :=
  let style : Style := match s with
    | .error => .boldRed
    | .warning => .boldYellow
    | .info => .blue
  style.paint f.colored (Named.name s)

/-- The mark at the left edge. -/
def gutter (f : TextFormat) (mark : String) : String :=
  Style.blue.paint f.colored mark

/-- The first line of a diagnostic: place, severity, rule and message. -/
def headline (f : TextFormat) (d : Diagnostic) : String :=
  d.location.file.text ++ ":" ++ toString d.location.line ++ ":" ++ toString d.location.column
    ++ ": " ++ f.severity d.severity ++ "[" ++ Style.cyan.paint f.colored d.ruleId ++ "]: "
    ++ d.message ++ (if d.inTestCode then " (test code)" else "") ++ "\n"

/-- The number of carets under a source line: the flagged bytes, but no more than the line has
characters from the column on, and at least one. -/
def caretCount (source : String) (d : Diagnostic) : Nat :=
  max 1 (min d.span.length (source.length - (d.location.column - 1)))

/-- The carets under the source line; without a column there are none. -/
def caretLine (f : TextFormat) (source : String) (d : Diagnostic) : String :=
  if d.location.column = 0 then ""
  else
    "     " ++ f.gutter "|" ++ " " ++ Text.times (d.location.column - 1) " "
      ++ Style.red.paint f.colored (Text.times (caretCount source d) "^") ++ "\n"

/-- The source line of a diagnostic with the carets below it. -/
def source (f : TextFormat) (d : Diagnostic) : String :=
  match d.sourceLine with
  | none => ""
  | some line =>
    Style.blue.paint f.colored (Text.padLeft 4 (toString d.location.line)) ++ " " ++ f.gutter "|"
      ++ " " ++ line ++ "\n" ++ f.caretLine line d

/-- Help and notes. -/
def help (f : TextFormat) (d : Diagnostic) : String :=
  let line (label text : String) := "     " ++ f.gutter "=" ++ " " ++ label ++ ": " ++ text ++ "\n"
  ((d.help.map (line "help")).getD "") ++ String.join (d.notes.map (line "note"))

/-- One diagnostic. -/
def diagnostic (f : TextFormat) (d : Diagnostic) : String :=
  f.headline d ++ (if f.showSource then f.source d else "")
    ++ (if f.showHelp then f.help d else "")

/-- A number of things of one sort, in a style. -/
def count (f : TextFormat) (n : UInt64) (one many : String) (style : Style) : List String :=
  if n = 0 then []
  else [style.paint f.colored (toString n ++ " " ++ if n = 1 then one else many)]

/-- The summary. -/
def stats (f : TextFormat) (r : Report) : String :=
  let counts := f.count r.errorCount "error" "errors" .red
    ++ f.count r.warningCount "warning" "warnings" .yellow
    ++ f.count r.infoCount "info" "infos" .blue
  toString r.unitsProcessed ++ (if r.unitsProcessed = 1 then " unit" else " units") ++ " processed"
    ++ (if counts.isEmpty then "" else ": " ++ ", ".intercalate counts) ++ "\n"
    ++ "Finished in " ++ Text.fixed 2 (secondsOfNanos r.duration) ++ "s\n"

/-- A whole report. -/
def report (f : TextFormat) (r : Report) : String :=
  let files := (PathMap.group (·.location.file) r.diagnostics).map fun (file, ds) =>
    Style.underline.paint f.colored file.text ++ "\n"
      ++ String.join (ds.map fun d => f.diagnostic d ++ "\n")
  String.join files
    ++ (if r.cancelled then
        Style.yellow.paint f.colored "analysis cancelled; results are partial" ++ "\n"
      else "")
    ++ (if f.showStats then f.stats r else "")

end TextFormat

end TreeLint
