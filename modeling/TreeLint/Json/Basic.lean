/-
TreeLint/Json/Basic.lean

JSON values as they stand in a text.  Objects keep the order and the
repetitions of their fields, and each key says whether it is written with
escapes.  A natural number is told apart from every other number, which is
kept as written.

Reading never fails: where a text stops being JSON, its value holds `broken`
and nothing after it.  A reader that goes through a value in order therefore
meets a fault of shape before a later fault of form, as if it had read the
text itself.  A string or a key whose escapes denote no text is `garbled`: it
can be skipped, but has no value.
-/

namespace TreeLint

namespace Json

/-- A key of an object, as it is written. -/
inductive Key where
  | plain (text : String)
  | escaped (text : String)
  | garbled
  deriving DecidableEq, Repr, Inhabited

/-- The text of a key. -/
def Key.text? : Key → Option String
  | plain text => some text
  | escaped text => some text
  | garbled => none

end Json

/-- A JSON value. -/
inductive Json where
  | null
  | bool (value : Bool)
  | nat (value : Nat)
  | number (literal : String)
  | string (value : String)
  | garbled
  | array (items : List Json)
  | object (fields : List (Json.Key × Json))
  | broken
  deriving Repr, Inhabited

namespace Json

/-- What is said of a text that is not what it should be. -/
def malformed : String := "malformed document"

mutual

/-- Whether the text of the value was JSON to its end. -/
def isWhole : Json → Bool
  | broken => false
  | array items => areWhole items
  | object fields => fieldsAreWhole fields
  | _ => true

/-- Whether all items are whole. -/
def areWhole : List Json → Bool
  | [] => true
  | v :: vs => v.isWhole && areWhole vs

/-- Whether all fields are whole. -/
def fieldsAreWhole : List (Key × Json) → Bool
  | [] => true
  | (_, v) :: fs => v.isWhole && fieldsAreWhole fs

end

/-- The value of the first field of a name. -/
def field? (v : Json) (name : String) : Option Json :=
  match v with
  | object fields => (fields.find? (·.1.text? == some name)).map (·.2)
  | _ => none

/-- An object with the given fields. -/
def ofFields (fields : List (String × Json)) : Json :=
  object (fields.map fun (name, v) => (.plain name, v))

/-- A value that may be absent. -/
def ofOption (f : α → Json) : Option α → Json
  | none => null
  | some a => f a

/-- A list of values. -/
def ofList (f : α → Json) (items : List α) : Json :=
  array (items.map f)

end Json

end TreeLint
