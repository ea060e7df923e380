/-
TreeLint/Report.lean

Reports: what one or several analyses have found, with counts and the time
each analyzer took.  Counts have 64 bits and start over after the greatest.
-/
import TreeLint.Diagnostic
import TreeLint.Dict
import TreeLint.Text.Fixed

namespace TreeLint

/-- How long the actions of an analyzer ran, in nanoseconds, and how many there were. -/
structure Timing where
  total : Nat := 0
  count : UInt64 := 0
  deriving DecidableEq, Repr, Inhabited

namespace Timing

/-- Both timings together. -/
def add (a b : Timing) : Timing := ⟨a.total + b.total, a.count + b.count⟩

/-- The time of one action on average, in whole nanoseconds.  The count is taken within 32 bits;
there is no average when nothing is left of it. -/
def average? (t : Timing) : Option Nat :=
  if t.count = 0 then some 0
  else
    let count := t.count.toUInt32.toNat
    if count = 0 then none else some (t.total / count)

end Timing

/-- Seconds as a floating-point number. -/
def secondsOfNanos (ns : Nat) : Float :=
  Float.ofNat (ns / 1000000000) + Float.ofNat (ns % 1000000000) / 1000000000.0

/-- What analyses have found. -/
structure Report where
  diagnostics : List Diagnostic := []
  unitsProcessed : UInt64 := 0
  unitsWithErrors : UInt64 := 0
  unitsWithWarnings : UInt64 := 0
  errorCount : UInt64 := 0
  warningCount : UInt64 := 0
  infoCount : UInt64 := 0
  duration : Nat := 0
  timings : Dict Timing := {}
  cancelled : Bool := false
  deriving Repr, Inhabited

namespace Report

/-- Whether there are errors. -/
def hasErrors (r : Report) : Bool := 0 < r.errorCount

/-- Whether there are warnings. -/
def hasWarnings (r : Report) : Bool := 0 < r.warningCount

/-- Whether there are neither. -/
def isClean (r : Report) : Bool := !r.hasErrors && !r.hasWarnings

/-- The exit code that tells errors from warnings from neither. -/
def exitCode (r : Report) : Nat :=
  if r.hasErrors then 2 else if r.hasWarnings then 1 else 0

/-! ### Counting -/

/-- Paths without repetition. -/
def distinctPaths (paths : List Path) : List Path :=
  paths.foldl (fun acc p => if acc.any (·.same p) then acc else acc ++ [p]) []

/-- The number of files with a diagnostic of a severity. -/
def filesWith (severity : Severity) (ds : List Diagnostic) : Nat :=
  (distinctPaths ((ds.filter (·.severity == severity)).map (·.location.file))).length

/-- The number of diagnostics of a severity. -/
def countOf (severity : Severity) (ds : List Diagnostic) : Nat :=
  ds.countP (·.severity == severity)

/-- The report on diagnostics, with everything counted. -/
def ofDiagnostics (ds : List Diagnostic) : Report where
  diagnostics := ds
  unitsWithErrors := .ofNat (filesWith .error ds)
  unitsWithWarnings := .ofNat (filesWith .warning ds)
  errorCount := .ofNat (countOf .error ds)
  warningCount := .ofNat (countOf .warning ds)
  infoCount := .ofNat (countOf .info ds)

/-! ### Merging -/

/-- Timings of both, added up by analyzer. -/
def mergeTimings (into other : Dict Timing) : Dict Timing :=
  into.mergeWith Timing.add other

/-- Both reports as one: the diagnostics one after the other, and all counts added up. -/
def merge (a b : Report) : Report where
  diagnostics := a.diagnostics ++ b.diagnostics
  unitsProcessed := a.unitsProcessed + b.unitsProcessed
  unitsWithErrors := a.unitsWithErrors + b.unitsWithErrors
  unitsWithWarnings := a.unitsWithWarnings + b.unitsWithWarnings
  errorCount := a.errorCount + b.errorCount
  warningCount := a.warningCount + b.warningCount
  infoCount := a.infoCount + b.infoCount
  duration := a.duration + b.duration
  timings := mergeTimings a.timings b.timings
  cancelled := a.cancelled || b.cancelled

/-! ### The table of timings -/

/-- The timings, longest first. -/
def sortedTimings (r : Report) : List (String × Timing) :=
  r.timings.entries.mergeSort fun a b => b.2.total ≤ a.2.total

/-- One row of the table; none when there is no average. -/
def timingRow? (entry : String × Timing) : Option String := do
  let (name, t) := entry
  let average ← t.average?
  let totalMs := secondsOfNanos t.total * 1000.0
  let averageUs := secondsOfNanos average * 1000000.0
  return Text.padRight 32 name ++ " " ++ Text.padLeft 10 (Text.fixed 2 totalMs) ++ "ms "
    ++ Text.padLeft 10 (Text.fixed 2 averageUs) ++ "µs " ++ Text.padLeft 10 (toString t.count) ++ "\n"

/-- The timings as a table; none when an average is missing. -/
def timingTable? (r : Report) : Option String :=
  if r.timings.entries.isEmpty then some "No timing data available"
  else do
    let rows ← r.sortedTimings.mapM timingRow?
    return "Analyzer Timing Statistics:\n" ++ Text.padRight 32 "Analyzer" ++ " "
      ++ Text.padLeft 12 "Total" ++ " " ++ Text.padLeft 12 "Avg" ++ " " ++ Text.padLeft 10 "Calls"
      ++ "\n" ++ Text.times 70 "-" ++ "\n" ++ String.join rows

end Report

end TreeLint
