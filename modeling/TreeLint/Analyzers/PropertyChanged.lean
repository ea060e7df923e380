/-
TreeLint/Analyzers/PropertyChanged.lean

Rule SC0003: `OnPropertyChanged` should be given `nameof(Name)` rather than
the name of a property as a string literal.  The literal may stand in
parentheses, and its value may differ from the property's name in letter
case; of several properties that fit, the first declared is meant.
-/
import TreeLint.Analysis.Analyzer

namespace TreeLint.PropertyChanged

/-- The rule. -/
def rule : Rule where
  id := "SC0003"
  name := "on-property-changed-without-nameof"
  title := "Use the nameof() operator in conjunction with OnPropertyChanged()"
  messageFormat := "OnPropertyChanged(\x7b0\x7d) can use the nameof() operator."
  category := .style
  defaultSeverity := .warning
  enabledByDefault := true
  description := "Passing the property name as a string literal silently breaks when the property is renamed. nameof() keeps the two in sync."
  exampleBad := some "OnPropertyChanged(\"IsEnabled\");"
  exampleGood := some "OnPropertyChanged(nameof(IsEnabled));"

/-- The method whose calls are looked at. -/
def notifyMethod : String := "OnPropertyChanged"

/-- Whether an invocation calls the method by its simple name. -/
def callsNotify (invocation : Element) : Bool :=
  invocation.childNodes.head?.bind Element.identifierText? == some notifyMethod

/-- The string literal that is the first argument of an invocation, outside its parentheses. -/
def literalArgument? (invocation : Element) : Option Element := do
  let arguments ← invocation.childOfKind? .argumentList
  let first ← arguments.childNodes.find? (·.kind == .argument)
  let expression := (← first.childNodes.head?).peelParentheses
  if expression.kind == .literalExpression
      && (expression.childOfKind? .stringLiteralToken).isSome then some expression
  else none

/-- The value of a string literal. -/
def literalValue? (literal : Element) : Option String := do
  Text.Literal.decode? (← literal.childOfKind? .stringLiteralToken).tokenText

/-- The class around an element. -/
def enclosingClass? (tree : Tree) (e : Element) : Option Element :=
  (tree.ancestors e.id).find? (·.kind == .classDeclaration)

/-- The first property of a class whose name is the given one up to letter case. -/
def property? (symbols : SymbolTable) (cls : SymbolId) (name : String) : Option Symbol :=
  (symbols.members cls).find? fun m =>
    m.kind == .property && Text.lower m.name == Text.lower name

/-- The literal to be replaced in an invocation and the property it names. -/
def candidate? (ctx : NodeContext) : Option (Element × Symbol) := do
  guard (callsNotify ctx.node)
  let literal ← literalArgument? ctx.node
  let value ← literalValue? literal
  let cls ← enclosingClass? ctx.unit.tree ctx.node
  let symbol ← ctx.unit.model.declared? cls.id
  let property ← property? ctx.unit.symbols symbol.id value
  return (literal, property)

/-- What is reported on an invocation. -/
def check (ctx : NodeContext) : List Diagnostic :=
  match candidate? ctx with
  | none => []
  | some (literal, property) =>
    [ctx.unit.diagnostic rule literal.span (.nameOfCandidate property.name) [property.name]]

/-- The analyzer of the rule. -/
def analyzer : Analyzer where
  name := "property-changed-nameof"
  rules := [rule]
  concurrent := true
  actions := { onNode := [(.invocationExpression, fun ctx => { reports := check ctx })] }

end TreeLint.PropertyChanged
