/-
TreeLint/Analyzers/EqualsHashCode.lean

Rule SC0001: a class that overrides one of `Equals(object)` and
`GetHashCode()` has to override the other.

Overrides are followed back to the member they override, and that member is
compared by structural key with the two members of the type marked as the
object type.  Only the members of the declaration at hand are looked at, so a
class split into parts is reported where one part has one half only.  If any
override of the class cannot be followed, nothing is reported.
-/
import TreeLint.Analysis.Analyzer

namespace TreeLint.EqualsHashCode

/-- The rule. -/
def rule : Rule where
  id := "SC0001"
  name := "equals-and-get-hash-code"
  title := "Implement Equals() and GetHashcode() together."
  messageFormat := "Equals() and GetHashcode() must be implemented together."
  category := .correctness
  defaultSeverity := .warning
  enabledByDefault := true
  description := "A class that overrides only one of Equals(object) and GetHashCode() breaks hashing: equal instances can end up in different buckets."
  exampleBad := some
    "class Point\n\x7b\n    public override bool Equals(object obj) => obj is Point;\n\x7d"
  exampleGood := some
    "class Point\n\x7b\n    public override bool Equals(object obj) => obj is Point;\n    public override int GetHashCode() => 0;\n\x7d"

/-- The keys of the two members of the object type, as far as they can be found. -/
structure Canonical where
  equals : Option SymbolKey := none
  getHashCode : Option SymbolKey := none
  deriving DecidableEq, Repr

/-- The key of the first method of a type with the given name and number of parameters. -/
def methodKey? (symbols : SymbolTable) (container : SymbolId) (name : String) (parameters : Nat) :
    Option SymbolKey := do
  let m ← (symbols.members container).find? fun m =>
    m.isMethod && m.name == name && m.parameterCount == parameters
  symbols.key? m.id

/-- Looks up the two members. -/
def Canonical.resolve (symbols : SymbolTable) : Canonical :=
  match symbols.specialType? .object with
  | none => {}
  | some object =>
    ⟨methodKey? symbols object.id "Equals" 1, methodKey? symbols object.id "GetHashCode" 0⟩

/-- The methods declared directly in a class that are marked as overrides. -/
def overrides (cls : Element) : List Element :=
  cls.childNodes.filter fun m => m.kind == .methodDeclaration && m.hasModifier .overrideKeyword

/-- The key of the member that an override goes back to. -/
def rootKey? (model : Model) (method : Element) : Option SymbolKey := do
  let declared ← model.declared? method.id
  let root ← model.symbols.overrideRoot? declared.id
  model.symbols.key? root.id

/-- Which halves of the pair the keys contain.  Where both halves have the same key, it counts for
the first. -/
def halves (canonical : Canonical) (keys : List SymbolKey) : Bool × Bool :=
  (keys.any (canonical.equals == some ·),
    keys.any fun k => canonical.equals != some k && canonical.getHashCode == some k)

/-- What is reported on a class. -/
def check (canonical : Canonical) (ctx : NodeContext) : List Diagnostic :=
  match (overrides ctx.node).mapM (rootKey? ctx.unit.model) with
  | none => []
  | some keys =>
    let (equals, getHashCode) := halves canonical keys
    if equals == getHashCode then []
    else
      match ctx.node.declarationIdentifier? with
      | none => []
      | some identifier =>
        [ctx.unit.diagnostic rule identifier.span (.pairedOverride equals) []]

/-- The analyzer of the rule. -/
def analyzer : Analyzer where
  name := "equals-hashcode"
  rules := [rule]
  concurrent := true
  atStart := [fun c =>
    let canonical := Canonical.resolve c.symbols
    { onNode := [(.classDeclaration, fun ctx => { reports := check canonical ctx })] }]

end TreeLint.EqualsHashCode
