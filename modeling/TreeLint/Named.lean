/-
TreeLint/Named.lean

Types of named alternatives, such as the kinds of symbols or the severities
of diagnostics: finitely many values, each written by a name of its own.
-/
import TreeLint.Json.Reader

namespace TreeLint

/-- A type whose values are written by name. -/
class Named (α : Type) where
  /-- Every value. -/
  all : List α
  /-- The name of a value. -/
  name : α → String

namespace Named

/-- The value of a given name. -/
def ofName? [Named α] (s : String) : Option α :=
  (Named.all : List α).find? (Named.name · == s)

/-- Reads a value from its name. -/
def read? [Named α] : Json.Reader α :=
  fun v => v.asName?.bind ofName?

/-- Writes a value as its name. -/
def write [Named α] (a : α) : Json :=
  .string (Named.name a)

end Named

end TreeLint
