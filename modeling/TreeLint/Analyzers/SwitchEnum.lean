/-
TreeLint/Analyzers/SwitchEnum.lean

Rule SC0002: a switch over an enum has to name every member.  A default
section and patterns cover nothing; members the host has made up itself need
not be covered.  If any case label cannot be resolved, nothing is reported.
-/
import TreeLint.Analysis.Analyzer

namespace TreeLint.SwitchEnum

/-- The rule. -/
def rule : Rule where
  id := "SC0002"
  name := "switch-missing-enum-member"
  title := "Add cases for missing enum member."
  messageFormat := "Missing enum member in switched cases."
  category := .correctness
  defaultSeverity := .warning
  enabledByDefault := true
  description := "A switch over an enum should name every member explicitly. A default section does not count, so newly added members are noticed."
  exampleBad := some
    "switch (color)\n\x7b\n    case Color.Red:\n        break;\n    default:\n        break;\n\x7d"
  exampleGood := some
    "switch (color)\n\x7b\n    case Color.Red:\n        break;\n    case Color.Green:\n        break;\n\x7d"

/-- The case labels of a switch. -/
def caseLabels (switch : Element) : List Element :=
  ((switch.childNodes.filter (·.kind == .switchSection)).flatMap Element.childNodes).filter
    (·.kind == .caseSwitchLabel)

/-- The key of the symbol that a case label names. -/
def labelKey? (model : Model) (label : Element) : Option SymbolKey := do
  let value ← label.childNodes.head?
  let symbol ← model.referenced? value.id
  model.symbols.key? symbol.id

/-- The names of the declared members of an enum that none of the keys denotes. -/
def missingMembers (symbols : SymbolTable) (enum : SymbolId) (covered : List SymbolKey) :
    List String :=
  ((symbols.members enum).filter fun m =>
    !m.implicitlyDeclared && !(symbols.key? m.id).any covered.contains).map (·.name)

/-- What is reported on a switch. -/
def check (ctx : NodeContext) : List Diagnostic :=
  let model := ctx.unit.model
  match ctx.node.switchExpression? with
  | none => []
  | some expression =>
    match model.type? expression.id with
    | none => []
    | some enum =>
      if !enum.isEnum then []
      else
        match (caseLabels ctx.node).mapM (labelKey? model) with
        | none => []
        | some covered =>
          let missing := missingMembers model.symbols enum.id covered
          if missing.isEmpty then []
          else [ctx.unit.diagnostic rule expression.span (.missingEnumCases enum.name missing) []]

/-- The analyzer of the rule. -/
def analyzer : Analyzer where
  name := "switch-enum"
  rules := [rule]
  concurrent := true
  actions := { onNode := [(.switchStatement, fun ctx => { reports := check ctx })] }

end TreeLint.SwitchEnum
