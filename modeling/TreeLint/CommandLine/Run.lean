/-
TreeLint/CommandLine/Run.lean

Running what a command line asks for, on files given as a value.  The outcome
holds the exit code, what is written to either stream, and the files that are
written.

Code 0 stands for success, 1 for warnings or an unknown rule, 2 for errors.
A failure names what was attempted and its causes, outermost first.
-/
import TreeLint.Analysis.Engine
import TreeLint.CommandLine.Help
import TreeLint.FilePattern
import TreeLint.Format

namespace TreeLint.CommandLine

/-- What a run starts from: the files, the home directory, and whether output is coloured unless
settings say otherwise. -/
structure Environment where
  files : FileTree
  home : Option Path := none
  colored : Bool := false

/-- A piece of output: a text, or a report, which shows how long the analysis took. -/
inductive Piece where
  | text (text : String)
  | report (format : ReportFormat) (report : Report)

/-- The piece as text, for an analysis that took the given time in nanoseconds. -/
def Piece.render (elapsed : Nat) : Piece → String
  | text t => t
  | report f r => f.report { r with duration := elapsed }

/-- How far a run has got. -/
structure Session where
  files : FileTree
  colored : Bool
  output : List Piece := []
  messages : String := ""
  written : List (Path × String) := []

/-- A step of a run; a failure is a list of causes, outermost first. -/
abbrev Job := ExceptT (List String) (StateM Session)

namespace Job

/-- Writes to the output. -/
def print (text : String) : Job Unit :=
  modify fun s => { s with output := s.output ++ [.text text] }

/-- Writes a line of messages. -/
def tell (line : String) : Job Unit :=
  modify fun s => { s with messages := s.messages ++ line ++ "\n" }

/-- A text in a style, if this run is coloured. -/
def paint (style : Style) (text : String) : Job String := do
  return style.paint (← get).colored text

/-- The value of a computation, or the failure of what was attempted. -/
def attempt (what : String) (causes : ε → List String) : Except ε α → Job α
  | .ok a => pure a
  | .error e => throw (what :: causes e)

end Job

/-! ### Settings and snapshots -/

/-- The causes of a configuration error, the error itself first. -/
def configCauses (e : ConfigError) : List String :=
  e.message :: e.cause?.toList

/-- The settings of a run: those of its configuration file, with what is given. -/
def loadConfig (home : Option Path) (g : General) : Job Config := do
  let files := (← get).files
  let config ← match g.config with
    | some path =>
      Job.attempt ("failed to load config " ++ path.text) configCauses (Config.load files path)
    | none =>
      Job.attempt "failed to load config" configCauses
        (Config.loadFrom files (⟨"."⟩ :: home.toList))
  return config.override g.overrides

/-- Whether a report is coloured; settings that always want colours get them in messages too. -/
def useColor (g : General) (config : Config) : Job Bool := do
  if g.noColor then return false
  match config.output.color with
  | .never => return false
  | .auto => return (← get).colored
  | .always =>
    modify fun s => { s with colored := true }
    return true

/-- The engine for settings, with the built-in analyzers. -/
def engineFor (config : Config) : Job Engine :=
  Job.attempt "invalid generated_code patterns" configCauses
    (Engine.create config builtinAnalyzers)

/-- The files that patterns name. -/
def snapshotFiles (patterns : List String) : Job (List Path) := do
  let files := (← get).files
  let found ← patterns.mapM fun pattern =>
    Job.attempt ("invalid pattern '" ++ pattern ++ "'") (fun e => [e.message])
      (FilePattern.expand files pattern)
  match found.flatten.filter files.isFile with
  | [] => throw ["no snapshot files found"]
  | paths => return paths

/-- Loads a snapshot. -/
def loadSnapshot (path : Path) : Job Compilation := do
  let what := "failed to load snapshot " ++ path.text
  let content ← Job.attempt what (fun e => ["IO error: " ++ e.message, e.message])
    ((← get).files.read path)
  Job.attempt what (fun e => ["invalid snapshot: " ++ e.message?.getD Json.malformed])
    (Compilation.ofText content)

/-! ### Checking -/

/-- Analyses snapshots and reports what was found. -/
def check (home : Option Path) (g : General) (patterns : List String)
    (format : Option OutputFormat) (timing exitZero : Bool) : Job Nat := do
  let config ← loadConfig home g
  let config := config.override { format }
  let colored ← useColor g config
  let paths ← snapshotFiles patterns
  let engine ← engineFor config
  let report := engine.analyzeAll (← paths.mapM loadSnapshot)
  let shown := ReportFormat.ofSettings config.output.format colored config.output.verbose
  modify fun s => { s with output := s.output ++ [.report shown report] }
  if timing then
    Job.tell ""
    Job.tell (report.timingTable?.getD "")
  return if exitZero then 0 else report.exitCode

/-! ### Fixing -/

/-- Where the fixed text of a unit goes: below the directory, along the names of its path. -/
def outputPath (directory path : Path) : Path :=
  directory.join (Path.ofComponents (path.components.filter fun
    | .name _ => true
    | _ => false))

/-- Writes the fixed text of a unit, making the directories on the way. -/
def writeFixed (directory path : Path) (text : String) : Job Unit := do
  let target := outputPath directory path
  match target.parent? with
  | none => pure ()
  | some parent =>
    let files ← Job.attempt ("failed to create " ++ parent.text) (fun e => [e.message])
      ((← get).files.ensureDirectory parent)
    modify fun s => { s with files }
  let files ← Job.attempt ("failed to write " ++ target.text) (fun e => [e.message])
    ((← get).files.write target text)
  modify fun s => { s with files, written := s.written ++ [(target, text)] }

/-- Shows or writes the fixed units. -/
def emitFixed (output : Option Path) (fixed : PathMap Tree) : Job Unit :=
  fixed.forM fun (path, tree) =>
    match output with
    | some directory => writeFixed directory path tree.text
    | none => do
      Job.print ((← Job.paint .dimmed ("// " ++ path.text)) ++ "\n")
      Job.print (tree.text ++ "\n")

/-- Says what came of the fixes of a snapshot. -/
def tellResult (r : FixOutcome) : Job Unit := do
  let t := r.tally
  Job.tell ("Applied " ++ toString t.applied ++ " fixes to " ++ toString r.unitsModified
    ++ " units (" ++ toString t.appliedSafe ++ " safe, " ++ toString t.appliedRisky ++ " unsafe)")
  t.errors.forM fun error => do
    Job.tell ((← Job.paint .yellow "warning") ++ ": " ++ error)
  if 0 < t.skipped then
    Job.tell ((← Job.paint .blue "note") ++ ": " ++ toString t.skipped
      ++ " fixes skipped (unsafe or overlapping; use --unsafe-fixes to include unsafe fixes)")

/-- The plan that a request asks for. -/
def planFor (riskyFixes diff showFixes : Bool) : FixPlan :=
  let plan : FixPlan := {}
  let plan := if diff then plan.withMode .diff
    else if showFixes then plan.withMode .showOnly else plan
  if riskyFixes then plan.withRisky true else plan

/-- Fixes one snapshot; the result is the number of fixes applied. -/
def fixSnapshot (g : General) (engine : Engine) (plan : FixPlan) (output : Option Path)
    (path : Path) : Job Nat := do
  let compilation ← loadSnapshot path
  let plan := plan.collect (engine.analyze compilation).diagnostics
  if plan.mode == .showOnly then
    Job.print (plan.formatFixes ++ "\n")
    return 0
  if plan.pendingCount = 0 then
    if g.verbose then Job.tell (path.text ++ ": no code fixes available")
    return 0
  let result := plan.apply compilation
  if plan.mode == .diff then Job.print result.formatDiffs
  else emitFixed output result.fixed
  tellResult result
  return result.tally.applied

/-- Fixes snapshots. -/
def fix (home : Option Path) (g : General) (patterns : List String)
    (riskyFixes diff showFixes : Bool) (output : Option Path) : Job Nat := do
  let config ← loadConfig home g
  let _ ← useColor g config
  let engine ← engineFor config
  let paths ← snapshotFiles patterns
  let plan := planFor riskyFixes diff showFixes
  let counts ← paths.mapM (fixSnapshot g engine plan output)
  if g.verbose && !showFixes then
    Job.tell (toString (counts.foldl Nat.add 0) ++ " fixes applied in total")
  return 0

/-! ### Rules -/

/-- Lists all rules. -/
def listRules (json : Bool) : Job Nat := do
  let rules := Registry.builtin.rules
  if json then Job.print ((Json.ofList Rule.write rules).pretty ++ "\n")
  else Job.print (rulesText (← get).colored rules)
  return 0

/-- Explains a rule. -/
def explain (query : String) : Job Nat := do
  match Registry.builtin.find? query with
  | some rule =>
    Job.print (explanation (← get).colored rule)
    return 0
  | none =>
    Job.tell ((← Job.paint .boldRed "error") ++ ": Rule '" ++ query ++ "' not found")
    Job.tell ""
    Job.tell ("Use " ++ (← Job.paint .cyan "sharpcheck rules") ++ " to see all available rules")
    return 1

/-! ### The program -/

/-- Does what is asked for. -/
def runTask (home : Option Path) (g : General) : Task → Job Nat
  | .check patterns format timing exitZero => check home g patterns format timing exitZero
  | .fix patterns riskyFixes diff showFixes output =>
    fix home g patterns riskyFixes diff showFixes output
  | .rules json => listRules json
  | .explain rule => explain rule

/-- What a run comes to; `files` is what the tree has become. -/
structure Outcome where
  code : Nat
  files : FileTree
  output : List Piece := []
  messages : String := ""
  written : List (Path × String) := []

/-- Does what a request asks for. -/
def Request.run (env : Environment) (r : Request) : Outcome :=
  let start : Session := { files := env.files, colored := env.colored && !r.general.noColor }
  match (runTask env.home r.general r.task).run.run start with
  | (.ok code, s) => ⟨code, s.files, s.output, s.messages, s.written⟩
  | (.error causes, s) =>
    let failure := Style.boldRed.paint s.colored "error" ++ ": " ++ ": ".intercalate causes ++ "\n"
    ⟨2, s.files, s.output, s.messages ++ failure, s.written⟩

/-- Runs the program. -/
def run (env : Environment) (args : List String) : Outcome :=
  match Request.ofArguments args with
  | .ok request => request.run env
  | .error .usage => { code := 2, files := env.files, messages := usageText }
  | .error (.help topic spelling) =>
    { code := 0, files := env.files, output := [.text (Help.page topic spelling).text] }
  | .error .version => { code := 0, files := env.files, output := [.text versionText] }

end TreeLint.CommandLine
