/-
TreeLint/Analysis/Analyzer.lean

Analyzers.  An analyzer lists the rules it can report, and actions for kinds
of nodes and kinds of symbols.  Some actions are there from the start, others
are made once the compilation is known.

An action is a function from what it looks at to an outcome: what it reports,
and whether it asks for the analysis to stop.  Reports of node actions and
reports against a declaration are subject to the analyzer's policy on
generated code; a symbol action can also report without naming a declaration,
and then the policy does not apply.
-/
import TreeLint.Diagnostic
import TreeLint.Snapshot
import TreeLint.Text.LineIndex
import TreeLint.Tree.Query

namespace TreeLint

/-- A unit as an analysis sees it. -/
structure AnalysisUnit where
  source : SourceUnit
  symbols : SymbolTable
  generated : Bool

namespace AnalysisUnit

/-- The tree of the unit. -/
def tree (u : AnalysisUnit) : Tree := u.source.tree

/-- The path of the unit. -/
def path (u : AnalysisUnit) : Path := u.source.path

/-- The symbols and bindings of the unit. -/
def model (u : AnalysisUnit) : Model := u.source.model u.symbols

/-- The node at a span, else the first token there. -/
def elementAt? (u : AnalysisUnit) (span : Span) : Option Element :=
  u.tree.nodeAt? span <|> u.tree.top.preorder.find? fun e => e.isToken && e.span == span

/-- The diagnostic of a rule at a span: located, with its source line, the rule's description as
help, and whether the place belongs to a test. -/
def diagnostic (u : AnalysisUnit) (rule : Rule) (span : Span) (payload : Payload)
    (args : List String) : Diagnostic :=
  let text := u.tree.text
  let position := Text.position text span.start
  { ruleId := rule.id
    severity := rule.defaultSeverity
    message := rule.message args
    location := ⟨u.path, span, position.line, position.column⟩
    payload
    sourceLine := Text.lineText? text position.line
    help := some rule.description
    inTestCode := (u.elementAt? span).any u.tree.isInTestMethod }

end AnalysisUnit

/-- What an action does: what it reports, and whether it asks for the analysis to stop. -/
structure Outcome (ρ : Type) where
  reports : List ρ := []
  cancel : Bool := false

/-- What a node action looks at. -/
structure NodeContext where
  unit : AnalysisUnit
  node : Element
  cancelled : Bool

/-- A place where a symbol is declared. -/
structure Declaration where
  unit : AnalysisUnit
  node : NodeId

/-- The element of a declaration. -/
def Declaration.element? (d : Declaration) : Option Element :=
  d.unit.tree.element? d.node

/-- What a symbol action looks at. -/
structure SymbolContext where
  symbol : Symbol
  symbols : SymbolTable
  declarations : List Declaration
  cancelled : Bool

/-- What a symbol action reports: against a declaration, or without naming one. -/
inductive SymbolReport where
  | against (declaration : Declaration) (diagnostic : Diagnostic)
  | plain (diagnostic : Diagnostic)

/-- An action on a node. -/
abbrev NodeAction := NodeContext → Outcome Diagnostic

/-- An action on a symbol. -/
abbrev SymbolAction := SymbolContext → Outcome SymbolReport

/-- Actions with the kinds they are for, in the order of registration. -/
structure Actions where
  onNode : List (Kind × NodeAction) := []
  onSymbol : List (SymbolKind × SymbolAction) := []

namespace Actions

/-- The actions for a kind of nodes. -/
def forNode (a : Actions) (kind : Kind) : List NodeAction :=
  (a.onNode.filter (·.1 == kind)).map (·.2)

/-- The actions for a kind of symbols. -/
def forSymbol (a : Actions) (kind : SymbolKind) : List SymbolAction :=
  (a.onSymbol.filter (·.1 == kind)).map (·.2)

/-- Both, the first ones first. -/
def append (a b : Actions) : Actions :=
  ⟨a.onNode ++ b.onNode, a.onSymbol ++ b.onSymbol⟩

end Actions

/-- How an analyzer treats generated code: whether it looks at it, and whether what it reports
there is kept. -/
structure GeneratedPolicy where
  analyze : Bool := true
  report : Bool := true
  deriving DecidableEq, Repr, Inhabited

/-- A checker of rules. -/
structure Analyzer where
  name : String
  rules : List Rule
  concurrent : Bool := false
  policy : GeneratedPolicy := {}
  actions : Actions := {}
  atStart : List (Compilation → Actions) := []

namespace Analyzer

/-- All actions of an analyzer on a compilation. -/
def actionsFor (a : Analyzer) (c : Compilation) : Actions :=
  a.atStart.foldl (fun actions start => actions.append (start c)) a.actions

/-- Whether the analyzer looks at a unit. -/
def runsOn (a : Analyzer) (u : AnalysisUnit) : Bool := !u.generated || a.policy.analyze

/-- Whether reports of the analyzer on a unit are kept. -/
def reportsOn (a : Analyzer) (u : AnalysisUnit) : Bool := !u.generated || a.policy.report

end Analyzer

end TreeLint
