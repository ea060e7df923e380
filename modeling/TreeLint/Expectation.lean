/-
TreeLint/Expectation.lean

Checking analyzers and fixes against expectations.

* `Expectation.checkReports` compares what an analyzer reports with what is
  expected.  Both are put in order first: diagnostics as usual, expectations
  by file, start, end and rule, those without a file first.
* `Expectation.checkFix` fixes all that an analyzer reports on one compilation and
  compares the texts with another, on which nothing may be left to fix.
-/
import TreeLint.Analysis.Engine
import TreeLint.Fix.Plan

namespace TreeLint

/-- What a diagnostic is expected to look like; absent parts may be anything. -/
structure Expectation where
  ruleId : String
  span : Span
  path : Option Path := none
  message : Option String := none
  payload : Option Payload := none
  deriving DecidableEq, Repr

/-- Why a check fails. -/
inductive ExpectationError where
  | countMismatch (expected actual : Nat) (found : String)
  | mismatch (index : Nat) (expected actual : String)
  | nothingToFix (ruleIds : List String)
  | fixFailed (errors : List String)
  | missingUnit (path : Path)
  | textMismatch (path : Path) (diff : String)
  | notIdempotent (count : Nat)
  | config (error : ConfigError)
  deriving DecidableEq, Repr

/-- The message shown for the error. -/
def ExpectationError.message : ExpectationError → String
  | countMismatch expected actual found =>
    "expected " ++ toString expected ++ " diagnostic(s), found " ++ toString actual ++ ":\n" ++ found
  | mismatch index expected actual =>
    "diagnostic #" ++ toString index ++ ": expected " ++ expected ++ ", found " ++ actual
  | nothingToFix ruleIds =>
    "analyzer reported nothing that " ++ ", ".intercalate ruleIds ++ " can fix"
  | fixFailed errors => "fix failed: " ++ "\n".intercalate errors
  | missingUnit path => path.text ++ " not present in expected compilation"
  | textMismatch path diff => "fixed text of " ++ path.text ++ " differs from expected:\n" ++ diff
  | notIdempotent count =>
    "fix is not idempotent: " ++ toString count ++ " fixable diagnostic(s) remain after fixing"
  | config error => error.message

namespace Payload

/-- The payload on one line. -/
def render (p : Payload) : String :=
  "[" ++ ", ".intercalate (p.entries.map fun (key, value) =>
    "(" ++ Text.quoted key ++ ", " ++ Text.quoted value ++ ")") ++ "]"

end Payload

/-- The diagnostic on one line. -/
def Diagnostic.render (d : Diagnostic) : String :=
  d.ruleId ++ " at " ++ d.span.render ++ " in " ++ d.location.file.text ++ " \"" ++ d.message
    ++ "\" " ++ d.payload.render

namespace Expectation

/-- Whether a diagnostic is as expected. -/
def isMetBy (e : Expectation) (d : Diagnostic) : Bool :=
  d.ruleId == e.ruleId && d.span == e.span && e.path.all (·.same d.location.file)
    && e.message.all (· == d.message) && e.payload.all (· == d.payload)

/-- The order of files that may be absent, which come first. -/
def comparePath : Option Path → Option Path → Ordering
  | none, none => .eq
  | none, some _ => .lt
  | some _, none => .gt
  | some p, some q => p.compare q

/-- The order in which expectations are met. -/
def compare (a b : Expectation) : Ordering :=
  (comparePath a.path b.path).then <|
    (Ord.compare a.span.start b.span.start).then <|
      (Ord.compare a.span.stop b.span.stop).then (Diagnostic.compareText a.ruleId b.ruleId)

/-- Expectations in order; those that are level keep their places. -/
def sort (es : List Expectation) : List Expectation :=
  es.mergeSort fun a b => a.compare b != .gt

/-- The expectation on one line. -/
def render (e : Expectation) : String :=
  e.ruleId ++ " at " ++ e.span.render
    ++ (e.path.map fun p => " in " ++ p.text).getD ""
    ++ (e.message.map fun m => " \"" ++ m ++ "\"").getD ""
    ++ (e.payload.map fun p => " " ++ p.render).getD ""

/-! ### Checks -/

/-- What an analyzer reports with all of its rules on. -/
def run (a : Analyzer) (c : Compilation) : Except ExpectationError (List Diagnostic) :=
  match Engine.create { rules := { enabled := a.rules.map (·.id) } } [a] with
  | .error e => .error (.config e)
  | .ok engine => .ok (engine.analyze c).diagnostics

/-- The first pair, counted from `index`, whose diagnostic is not as expected. -/
def firstMismatch? : (index : Nat) → List Expectation → List Diagnostic → Option ExpectationError
  | index, want :: wants, got :: gots =>
    if want.isMetBy got then firstMismatch? (index + 1) wants gots
    else some (.mismatch index want.render got.render)
  | _, _, _ => none

/-- Compares diagnostics in order with expectations in any order. -/
def compareAll (expected : List Expectation) (actual : List Diagnostic) :
    Except ExpectationError Unit :=
  if actual.length ≠ expected.length then
    .error (.countMismatch expected.length actual.length
      (String.join (actual.map fun d => "  " ++ d.render ++ "\n")))
  else (firstMismatch? 0 (sort expected) actual).elim (.ok ()) .error

/-- Checks that an analyzer reports what is expected. -/
def checkReports (a : Analyzer) (c : Compilation) (expected : List Expectation) :
    Except ExpectationError Unit := do
  compareAll expected (← run a c)

/-- What an analyzer reports that a provider can fix. -/
def fixable (a : Analyzer) (p : FixProvider) (c : Compilation) :
    Except ExpectationError (List Diagnostic) := do
  return (← run a c).filter (p.canFix ·.ruleId)

/-- Checks the text of one unit after fixing. -/
def checkUnit (after : Compilation) (r : FixOutcome) (unit : SourceUnit) :
    Except ExpectationError Unit :=
  match after.unit? unit.path with
  | none => .error (.missingUnit unit.path)
  | some expected =>
    let expected := expected.tree.text
    let actual := ((r.fixed.get? unit.path).getD unit.tree).text
    if actual = expected then .ok ()
    else .error (.textMismatch unit.path (Diff.patch unit.path expected actual))

/-- Checks that a provider turns one compilation into another and leaves nothing to fix. -/
def checkFix (a : Analyzer) (p : FixProvider) (before after : Compilation) :
    Except ExpectationError Unit := do
  let found ← fixable a p before
  if found.isEmpty then .error (.nothingToFix p.ruleIds)
  let plan := (({ providers := [p] } : FixPlan).withRisky true).collect found
  let result := plan.apply before
  if !result.tally.errors.isEmpty then .error (.fixFailed result.tally.errors)
  before.units.forM (checkUnit after result)
  let remaining ← fixable a p after
  if !remaining.isEmpty then .error (.notIdempotent remaining.length)

end Expectation

end TreeLint
