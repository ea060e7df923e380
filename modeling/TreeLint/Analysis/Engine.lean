/-
TreeLint/Analysis/Engine.lean

Running analyzers over a compilation.

Only analyzers with a rule that is on take part.  Each unit is walked once in
document order, and every element is handed to the actions for its kind:
first by the analyzers that may run concurrently, over all units, then by the
others.  After that the symbol actions run, once for each declared symbol.

A request to stop is honoured before the next element or symbol.  What was
reported is then filtered and relabelled as the settings say, and sorted.
-/
import TreeLint.Analysis.Analyzer
import TreeLint.Config.Load
import TreeLint.Glob.Set
import TreeLint.Report

namespace TreeLint

/-- Settings, analyzers, the patterns for generated code, and whether a stop was requested. -/
structure Engine where
  config : Config
  analyzers : List Analyzer
  generatedGlobs : List Glob
  cancelled : Bool := false

namespace Engine

/-- An engine with the given settings and analyzers. -/
def create (config : Config) (analyzers : List Analyzer) : Except ConfigError Engine :=
  config.generatedGlobs.map fun globs => { config, analyzers, generatedGlobs := globs }

/-! ### Generated code -/

/-- What the first comment of a generated file contains. -/
def generatedHeader : String := "<auto-generated"

/-- Whether a list occurs in another as a whole. -/
def occursIn (needle : List Char) : List Char → Bool
  | [] => needle.isEmpty
  | c :: cs => needle.isPrefixOf (c :: cs) || occursIn needle cs

/-- Whether a unit counts as generated. -/
def isGenerated (e : Engine) (u : SourceUnit) : Bool :=
  u.generated || Glob.anyMatch e.generatedGlobs u.path.text
    || (e.config.generatedCode.detectHeader
      && occursIn generatedHeader.toList u.tree.top.leadingTrivia.toList)

/-! ### Running actions -/

/-- An analyzer with its actions on the compilation at hand. -/
structure Prepared where
  analyzer : Analyzer
  actions : Actions

/-- How far an analysis has got: what was reported, how many actions of each analyzer ran, and
whether a stop was requested. -/
structure Progress where
  reported : List Diagnostic := []
  invocations : Dict Nat := {}
  cancelled : Bool := false

namespace Progress

/-- After one more action of an analyzer. -/
def after (p : Progress) (analyzer : String) (reported : List Diagnostic) (cancel : Bool) :
    Progress where
  reported := p.reported ++ reported
  invocations := p.invocations.alter analyzer fun n => n.getD 0 + 1
  cancelled := p.cancelled || cancel

end Progress

/-- Hands an element to the actions of one analyzer. -/
def visitBy (u : AnalysisUnit) (e : Element) (p : Progress) (a : Prepared) : Progress :=
  (a.actions.forNode e.kind).foldl (fun p action =>
    let outcome := action ⟨u, e, p.cancelled⟩
    p.after a.analyzer.name (if a.analyzer.reportsOn u then outcome.reports else [])
      outcome.cancel) p

/-- Hands an element to all analyzers, unless a stop was requested. -/
def visit (u : AnalysisUnit) (active : List Prepared) (p : Progress) (e : Element) : Progress :=
  if p.cancelled then p else active.foldl (visitBy u e) p

/-- Walks a unit. -/
def runUnit (analyzers : List Prepared) (p : Progress) (u : AnalysisUnit) : Progress :=
  u.tree.top.preorder.foldl (visit u (analyzers.filter (·.analyzer.runsOn u))) p

/-- The declarations of a symbol, by unit and then by slot. -/
def declarationsOf (units : List AnalysisUnit) (id : SymbolId) : List Declaration :=
  units.flatMap fun u =>
    (u.source.bindings.declared.entries.filter (·.2 == id)).map fun entry => ⟨u, entry.1⟩

/-- What is kept of the reports on a symbol. -/
def keptReports (a : Analyzer) (reports : List SymbolReport) : List Diagnostic :=
  reports.filterMap fun
    | .against declaration diagnostic =>
      if a.reportsOn declaration.unit then some diagnostic else none
    | .plain diagnostic => some diagnostic

/-- Hands a symbol to the actions of one analyzer, if it is declared where the analyzer looks and
no stop was requested. -/
def visitSymbol (symbols : SymbolTable) (units : List AnalysisUnit) (a : Prepared) (p : Progress)
    (s : Symbol) : Progress :=
  let visible := (declarationsOf units s.id).filter (a.analyzer.runsOn ·.unit)
  if p.cancelled || visible.isEmpty then p
  else
    (a.actions.forSymbol s.kind).foldl (fun p action =>
      let outcome := action ⟨s, symbols, visible, p.cancelled⟩
      p.after a.analyzer.name (keptReports a.analyzer outcome.reports) outcome.cancel) p

/-- Hands all symbols to one analyzer. -/
def runSymbols (c : Compilation) (units : List AnalysisUnit) (p : Progress) (a : Prepared) :
    Progress :=
  if a.actions.onSymbol.isEmpty then p
  else c.symbols.symbols.toList.foldl (visitSymbol c.symbols units a) p

/-- The analyzers that take part. -/
def prepare (e : Engine) (c : Compilation) : List Prepared :=
  (e.analyzers.filter fun a => a.rules.any e.config.isEnabled).map fun a => ⟨a, a.actionsFor c⟩

/-- The units of a compilation as an analysis sees them. -/
def unitsOf (e : Engine) (c : Compilation) : List AnalysisUnit :=
  c.units.map fun u => ⟨u, c.symbols, e.isGenerated u⟩

/-- Runs all actions. -/
def run (e : Engine) (c : Compilation) : Progress :=
  let prepared := e.prepare c
  let units := e.unitsOf c
  let (concurrent, sequential) :=
    prepared.partition fun a => a.analyzer.concurrent && e.config.engine.parallel
  let p := units.foldl (runUnit concurrent) { cancelled := e.cancelled }
  let p := units.foldl (runUnit sequential) p
  prepared.foldl (runSymbols c units) p

/-! ### Selecting and sorting -/

/-- The rule of an id: the last one that any analyzer lists. -/
def rule? (e : Engine) (id : String) : Option Rule :=
  (e.analyzers.flatMap (·.rules)).reverse.find? (·.id == id)

/-- A diagnostic as the settings want it; none when they do not.  A diagnostic of an unknown rule
stays as it is. -/
def select? (e : Engine) (d : Diagnostic) : Option Diagnostic :=
  match e.rule? d.ruleId with
  | none => some d
  | some r =>
    if !e.config.isEnabled r || e.config.ignoresInFile r d.location.file then none
    else some { d with severity := (e.config.severity? r).getD d.severity }

/-- The diagnostics that are shown, in order. -/
def finish (e : Engine) (reported : List Diagnostic) : List Diagnostic :=
  Diagnostic.sort (reported.filterMap e.select?)

/-- The report on what an analysis of a compilation has come to. -/
def report (e : Engine) (c : Compilation) (p : Progress) : Report :=
  { Report.ofDiagnostics (e.finish p.reported) with
    unitsProcessed := .ofNat c.units.length
    timings := p.invocations.map fun count => { count := .ofNat count }
    cancelled := p.cancelled }

/-- Analyses a compilation. -/
def analyze (e : Engine) (c : Compilation) : Report := e.report c (e.run c)

/-- Whether it can be told if a diagnostic is ignored in its file. -/
def canSelect (e : Engine) (d : Diagnostic) : Bool :=
  (e.rule? d.ruleId).all fun r =>
    !e.config.isEnabled r || (e.config.ignoresInFile? r d.location.file).isSome

/-- Analyses a compilation, unless a pattern that has to be matched is nested too deeply. -/
def analyze? (e : Engine) (c : Compilation) : Option Report :=
  let p := e.run c
  if p.reported.all e.canSelect then some (e.report c p) else none

/-- Analyses several compilations, one after the other. -/
def analyzeAll (e : Engine) (cs : List Compilation) : Report :=
  cs.foldl (fun report c => report.merge (e.analyze c)) {}

end Engine

end TreeLint
