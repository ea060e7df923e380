/-
TreeLint/Config/Document.lean

Formats in which settings can be written.  A format says what a value of it
means as a truth value, a number, a text, and so on; JSON and YAML differ in
that.  Settings are read through this interface, so that every format is read
by the same rules.

In YAML a value can stand in for another one, which is then looked up.  Of
such lookups a reading makes only so many: it carries the number of those that
are left, and fails when one more is needed.
-/
import TreeLint.Json.Reader
import TreeLint.Named
import TreeLint.Yaml.Basic

namespace TreeLint

/-- A reading: it fails, or it gives a value and how many lookups are left then. -/
abbrev Document.Reading (α : Type) := StateT Nat Option α

/-- A format for settings, by the readings of its values. -/
class Document (V : Type) where
  /-- A truth value. -/
  flag? : V → Document.Reading Bool
  /-- A natural number within 64 bits. -/
  count? : V → Document.Reading Nat
  /-- A text. -/
  text? : V → Document.Reading String
  /-- The name of one of several choices. -/
  choice? : V → Document.Reading String
  /-- A list. -/
  items? : V → Document.Reading (List V)
  /-- A map with arbitrary keys. -/
  entries? : V → Document.Reading (List (String × V))
  /-- A record with the given fields: unknown fields are dropped, and none is given twice. -/
  record? : List String → V → Document.Reading (List (String × V))

/-! ### JSON -/

instance : Document Json where
  flag? v := StateT.lift v.asBool?
  count? v := StateT.lift (v.asNat? 64)
  text? v := StateT.lift v.asString?
  choice? v := StateT.lift v.asName?
  items? v := StateT.lift (v.asList? some)
  entries? v := StateT.lift (v.asEntries? Json.Key.text? some)
  record? names v := StateT.lift ((v.asRecord? names).map (·.fields))

/-! ### YAML -/

namespace Yaml

/-- The node that a value is: itself or, for an alias, the anchored node, which is looked up. -/
def target? (v : Yaml) : Document.Reading Node := fun left =>
  match v.value with
  | .reference number =>
    match left, v.anchored.lookup number with
    | left + 1, some node => some (node, left)
    | _, _ => none
  | node => some (node, left)

/-- What `read` makes of the node that a value is. -/
def through (read : Node → Option α) (v : Yaml) : Document.Reading α := do
  StateT.lift (read (← v.target?))

/-- The entries of a mapping whose keys are scalars. -/
def entries? (v : Yaml) : Document.Reading (List (String × Yaml)) := do
  (← v.through Node.entries?).mapM fun (key, value) => do
    return (← (v.part key).through Node.text?, v.part value)

end Yaml

/-- Whether one of the names is given twice. -/
def Document.repeats (names : List String) : List (String × V) → Bool
  | [] => false
  | (k, _) :: rest => (names.contains k && rest.any (·.1 == k)) || repeats names rest

instance : Document Yaml where
  flag? := Yaml.through Yaml.Node.flag?
  count? := Yaml.through Yaml.Node.count?
  text? := Yaml.through Yaml.Node.text?
  choice? := Yaml.through Yaml.Node.choice?
  items? v := do return (← v.through Yaml.Node.items?).map v.part
  entries? := Yaml.entries?
  record? names v := do
    let entries ← v.entries?
    if Document.repeats names entries then failure
    return entries.filter (names.contains ·.1)

/-! ### Compound readings -/

namespace Document

variable {V : Type} [Document V]

/-- A list of texts. -/
def texts? (v : V) : Reading (List String) := do
  (← items? v).mapM text?

/-- A value written by name. -/
def named? [Named α] (v : V) : Reading α := do
  StateT.lift (Named.ofName? (← choice? v))

/-- A field that may be left out. -/
def field (fields : List (String × V)) (name : String) (default : α) (read : V → Reading α) :
    Reading α :=
  match fields.lookup name with
  | none => return default
  | some v => read v

end Document

end TreeLint
