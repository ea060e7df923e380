/-
TreeLint/Symbol/Codec.lean

Symbols and bindings in JSON.  Absent optional fields are left out, and so
are empty maps.  The slots of a binding map are written as decimal strings.
-/
import TreeLint.Json.Parser
import TreeLint.Symbol.Bindings
import TreeLint.Tree.Codec

namespace TreeLint

namespace Symbol

/-- Reads a symbol number. -/
def readId? : Json.Reader SymbolId := Json.asNat? 32

/-- Reads a symbol. -/
def read? : Json.Reader Symbol := fun v => do
  let r ← v.asRecord? ["id", "name", "kind", "type_kind", "container", "parameter_count",
    "is_override", "overridden", "implicitly_declared", "special"]
  return {
    id := ← r.required "id" readId?
    name := ← r.required "name" Json.asString?
    kind := ← r.required "kind" Named.read?
    typeKind := ← r.optional "type_kind" Named.read?
    container := ← r.optional "container" readId?
    parameterCount := ← r.defaulted "parameter_count" 0 (Json.asNat? 64)
    isOverride := ← r.defaulted "is_override" false Json.asBool?
    overridden := ← r.optional "overridden" readId?
    implicitlyDeclared := ← r.defaulted "implicitly_declared" false Json.asBool?
    special := ← r.optional "special" Named.read? }

/-- Writes a symbol. -/
def write (s : Symbol) : Json :=
  .ofFields ([("id", .nat s.id), ("name", .string s.name), ("kind", Named.write s.kind)]
    ++ (s.typeKind.map fun k => ("type_kind", Named.write k)).toList
    ++ (s.container.map fun c => ("container", Json.nat c)).toList
    ++ [("parameter_count", .nat s.parameterCount), ("is_override", .bool s.isOverride)]
    ++ (s.overridden.map fun o => ("overridden", Json.nat o)).toList
    ++ [("implicitly_declared", .bool s.implicitlyDeclared)]
    ++ (s.special.map fun k => ("special", Named.write k)).toList)

end Symbol

namespace SymbolTable

/-- Writes a table as the list of its symbols. -/
def write (t : SymbolTable) : Json :=
  Json.ofList Symbol.write t.symbols.toList

end SymbolTable

namespace NodeMap

/-- The slot that a key names: a decimal number without sign, blanks, leading zeros or escapes. -/
def slot? : Json.Key → Option NodeId
  | .plain text =>
    match Json.wholePart? text.toList with
    | some (digits, []) => NodeId.read? (.nat (Json.natOfDigits digits))
    | _ => none
  | _ => none

/-- Reads a map. -/
def read? : Json.Reader NodeMap := fun v =>
  (v.asEntries? slot? Symbol.readId?).map ofList

/-- Writes a map. -/
def write (m : NodeMap) : Json :=
  .ofFields (m.entries.map fun (node, symbol) => (toString node, .nat symbol))

end NodeMap

namespace Bindings

/-- Reads the bindings of a unit. -/
def read? : Json.Reader Bindings := fun v => do
  let r ← v.asRecord? ["declared", "referenced", "types"]
  return {
    declared := ← r.defaulted "declared" .empty NodeMap.read?
    referenced := ← r.defaulted "referenced" .empty NodeMap.read?
    types := ← r.defaulted "types" .empty NodeMap.read? }

/-- Writes the bindings of a unit. -/
def write (b : Bindings) : Json :=
  .ofFields ([("declared", b.declared), ("referenced", b.referenced), ("types", b.types)].filterMap
    fun (name, m) => if m.entries.isEmpty then none else some (name, m.write))

end Bindings

end TreeLint
