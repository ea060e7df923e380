/-
TreeLint/Registry.lean

The built-in analyzers, and registries of rules.  A registry lists rules by
id; where several analyzers claim an id, the first one counts.
-/
import TreeLint.Analyzers.EqualsHashCode
import TreeLint.Analyzers.PropertyChanged
import TreeLint.Analyzers.SwitchEnum

namespace TreeLint

/-- The analyzers that come with the library. -/
def builtinAnalyzers : List Analyzer :=
  [EqualsHashCode.analyzer, SwitchEnum.analyzer, PropertyChanged.analyzer]

/-- Rules by id, in the order of their ids. -/
structure Registry where
  rules : List Rule := []
  deriving Repr, Inhabited

namespace Registry

/-- Puts a rule in its place; one with the same id stays instead. -/
def put (r : Rule) : List Rule → List Rule
  | [] => [r]
  | s :: rest =>
    if r.id < s.id then r :: s :: rest
    else if r.id = s.id then s :: rest
    else s :: put r rest

/-- The registry of the rules of several analyzers. -/
def ofAnalyzers (analyzers : List Analyzer) : Registry :=
  ⟨(analyzers.flatMap (·.rules)).foldl (fun rules r => put r rules) []⟩

/-- The built-in rules. -/
def builtin : Registry := ofAnalyzers builtinAnalyzers

/-- The number of rules. -/
def size (g : Registry) : Nat := g.rules.length

/-- The rule of an id. -/
def get? (g : Registry) (id : String) : Option Rule :=
  g.rules.find? (·.id == id)

/-- The rule of an id, else the first rule with that id or name in any letter case. -/
def find? (g : Registry) (query : String) : Option Rule :=
  g.get? query <|> g.rules.find? fun r =>
    Text.sameIgnoringCase r.id query || Text.sameIgnoringCase r.name query

end Registry

end TreeLint
