/-
TreeLint/Fix/Plan.lean

Plans to fix a compilation.  A plan pairs diagnostics with the first provider
that serves their rule, and applies what its mode lets through.

Within a unit fixes are applied back to front, so that the spans of those
still to come stay valid.  A fix that overlaps one already applied is skipped,
and one that fails leaves the tree as it was.  Every pending fix ends up
applied, failed or skipped.
-/
import TreeLint.Diff.Patch
import TreeLint.Fix.MissingCases
import TreeLint.Fix.NameOf
import TreeLint.PathMap
import TreeLint.Snapshot
import TreeLint.Text.Quoted

namespace TreeLint

/-- The providers that come with the library. -/
def builtinFixes : List FixProvider := [NameOfFix.provider, MissingCasesFix.provider]

/-- A diagnostic with the provider that is to fix it. -/
structure PendingFix where
  diagnostic : Diagnostic
  provider : FixProvider

namespace PendingFix

/-- The file to be fixed. -/
def file (f : PendingFix) : Path := f.diagnostic.location.file

/-- The bytes that the fix is about. -/
def span (f : PendingFix) : Span := f.diagnostic.span

/-- The line that the fix is about. -/
def line (f : PendingFix) : Nat := f.diagnostic.location.line

/-- The column that the fix is about. -/
def column (f : PendingFix) : Nat := f.diagnostic.location.column

/-- The rule that asked for the fix. -/
def ruleId (f : PendingFix) : String := f.diagnostic.ruleId

/-- What the fix is called. -/
def title (f : PendingFix) : String := f.provider.title f.diagnostic

/-- Whether the fix keeps the meaning of the source. -/
def safety (f : PendingFix) : FixSafety := f.provider.safety

/-- The fix on one line, for inspection. -/
def render (f : PendingFix) : String :=
  let safety := match f.safety with
    | .safe => "Safe"
    | .risky => "Unsafe"
  "Fix \x7b file: " ++ Text.quoted f.file.text ++ ", rule_id: " ++ Text.quoted f.ruleId
    ++ ", title: " ++ Text.quoted f.title ++ ", safety: " ++ safety ++ " \x7d"

/-- Whether `f` is applied no later than `g`: those further back in the text come first. -/
def isNoLater (f g : PendingFix) : Bool :=
  g.span.start < f.span.start || (f.span.start == g.span.start && g.span.stop ≤ f.span.stop)

/-- The order in which fixes are listed. -/
def compare (f g : PendingFix) : Ordering :=
  (f.file.compare g.file).then <|
    (Ord.compare f.line g.line).then (Ord.compare f.column g.column)

end PendingFix

/-- What a plan lets through and what it does with it. -/
inductive FixMode where
  | safeOnly | all | diff | showOnly
  deriving DecidableEq, Repr, Inhabited

/-- Providers, the fixes collected so far, and how they are to be applied. -/
structure FixPlan where
  providers : List FixProvider := builtinFixes
  pending : PathMap (List PendingFix) := []
  mode : FixMode := .safeOnly
  includeRisky : Bool := false

/-- The results of applying fixes, counted. -/
structure FixTally where
  applied : Nat := 0
  appliedSafe : Nat := 0
  appliedRisky : Nat := 0
  failed : Nat := 0
  skipped : Nat := 0
  errors : List String := []
  deriving DecidableEq, Repr, Inhabited

namespace FixTally

/-- After one more applied fix. -/
def countApplied (t : FixTally) : FixSafety → FixTally
  | .safe => { t with applied := t.applied + 1, appliedSafe := t.appliedSafe + 1 }
  | .risky => { t with applied := t.applied + 1, appliedRisky := t.appliedRisky + 1 }

/-- After `count` more skipped fixes. -/
def skip (t : FixTally) (count : Nat) : FixTally :=
  { t with skipped := t.skipped + count }

/-- After `count` more failed fixes, for one reason. -/
def fail (t : FixTally) (count : Nat) (error : String) : FixTally :=
  { t with failed := t.failed + count, errors := t.errors ++ [error] }

end FixTally

/-- What came of applying fixes: the tally, the units that changed, and, if asked for, their
patches. -/
structure FixOutcome where
  tally : FixTally := {}
  unitsModified : Nat := 0
  fixed : PathMap Tree := []
  diffs : PathMap String := []

namespace FixPlan

/-! ### Settings -/

/-- The plan with risky fixes let through or not; a plan for safe ones becomes one for all. -/
def withRisky (p : FixPlan) (risky : Bool) : FixPlan :=
  { p with
    includeRisky := risky
    mode := if risky && p.mode == .safeOnly then .all else p.mode }

/-- The plan in another mode. -/
def withMode (p : FixPlan) (mode : FixMode) : FixPlan := { p with mode }

/-- Whether a fix is let through. -/
def accepts (p : FixPlan) (fix : PendingFix) : Bool :=
  match p.mode with
  | .all => true
  | .safeOnly => fix.safety == .safe
  | .diff | .showOnly => p.includeRisky || fix.safety == .safe

/-! ### Collecting -/

/-- Collects the fix of a diagnostic, if a provider serves its rule. -/
def collectOne (p : FixPlan) (d : Diagnostic) : FixPlan :=
  match p.providers.find? (·.canFix d.ruleId) with
  | none => p
  | some provider =>
    { p with
      pending := p.pending.alter d.location.file fun old => old.getD [] ++ [⟨d, provider⟩] }

/-- Collects the fixes of diagnostics. -/
def collect (p : FixPlan) (ds : List Diagnostic) : FixPlan :=
  ds.foldl collectOne p

/-- The number of fixes collected. -/
def pendingCount (p : FixPlan) : Nat :=
  (p.pending.flatMap (·.2)).length

/-- The fixes that are let through, in order. -/
def pendingFixes (p : FixPlan) : List PendingFix :=
  ((p.pending.flatMap (·.2)).filter p.accepts).mergeSort fun a b => a.compare b != .gt

/-! ### Applying -/

/-- Work on one unit: the tree if it has changed, the spans of the fixes applied, and the tally. -/
structure Attempt where
  current : Option Tree := none
  spans : List Span := []
  tally : FixTally := {}

/-- The message for a fix that failed. -/
def failureMessage (file : Path) (fix : PendingFix) (error : FixError) : String :=
  file.text ++ ":" ++ toString fix.line ++ ":" ++ toString fix.column ++ ": " ++ fix.ruleId ++ ": "
    ++ error.message

/-- Tries one fix. -/
def tryFix (file : Path) (tree : Tree) (a : Attempt) (fix : PendingFix) : Attempt :=
  if a.spans.any (·.overlaps fix.span) then { a with tally := a.tally.skip 1 }
  else
    match fix.provider.fix (a.current.getD tree) fix.diagnostic with
    | .ok fixed =>
      { current := some fixed
        spans := a.spans ++ [fix.span]
        tally := a.tally.countApplied fix.safety }
    | .error e => { a with tally := a.tally.fail 1 (failureMessage file fix e) }

/-- Tries fixes on a unit, back to front. -/
def fixUnit (file : Path) (tree : Tree) (fixes : List PendingFix) (tally : FixTally) : Attempt :=
  (fixes.mergeSort PendingFix.isNoLater).foldl (tryFix file tree) { tally }

/-- The result with a changed unit. -/
def recordUnit (p : FixPlan) (file : Path) (old new : Tree) (r : FixOutcome) : FixOutcome :=
  { r with
    unitsModified := r.unitsModified + 1
    fixed := r.fixed ++ [(file, new)]
    diffs := if p.mode == .diff then r.diffs ++ [(file, Diff.patch file old.text new.text)]
      else r.diffs }

/-- Applies the fixes of one file. -/
def applyFile (p : FixPlan) (c : Compilation) (r : FixOutcome) (entry : Path × List PendingFix) :
    FixOutcome :=
  let (file, fixes) := entry
  let accepted := fixes.filter p.accepts
  let tally := r.tally.skip (fixes.length - accepted.length)
  if p.mode == .showOnly then
    { r with tally := accepted.foldl (fun t fix => t.countApplied fix.safety) tally }
  else
    match c.unit? file with
    | none =>
      { r with
        tally := tally.fail accepted.length (file.text ++ ": unit not found in compilation") }
    | some unit =>
      let attempt := fixUnit file unit.tree accepted tally
      let r := { r with tally := attempt.tally }
      match attempt.current with
      | none => r
      | some tree => p.recordUnit file unit.tree tree r

/-- Applies all fixes that are let through, file by file. -/
def apply (p : FixPlan) (c : Compilation) : FixOutcome :=
  p.pending.foldl (p.applyFile c) {}

/-! ### Listings -/

/-- Lines for fixes in order; a file is named where it differs from the one before. -/
def listing : (current : Option Path) → List PendingFix → List String
  | _, [] => []
  | current, fix :: rest =>
    let named := current.any fix.file.same
    (if named then [] else [fix.file.text ++ ":\n"])
      ++ ("  Line " ++ toString fix.line ++ ": [" ++ Named.name fix.safety ++ "] " ++ fix.ruleId
        ++ " - " ++ fix.title ++ "\n")
      :: listing (some fix.file) rest

/-- The fixes that are let through, for people. -/
def formatFixes (p : FixPlan) : String :=
  match p.pendingFixes with
  | [] => "No fixes available.\n"
  | fixes =>
    "Found " ++ toString fixes.length ++ " fix(es):\n\n" ++ String.join (listing none fixes)

end FixPlan

/-- The patches of all units. -/
def FixOutcome.formatDiffs (r : FixOutcome) : String :=
  String.join (r.diffs.map fun (file, diff) =>
    "diff --sharpcheck a/" ++ file.text ++ " b/" ++ file.text ++ "\n" ++ diff)

end TreeLint
