/-
TreeLint/Json/Reader.lean

Readers: what a JSON value means as a value of another type.  A reader
answers `none` when the value does not have the shape it expects.

A record is read from an object, whose fields may come in any order and
among unknown ones, but not twice, or from a list that gives the fields in
their declared order.  A field with a default may be left out.  An optional
field may also be null, and a nullable one may be left out of an object only.
-/
import TreeLint.Json.Basic

namespace TreeLint.Json

/-- What a value means as an `α`, if it has the right shape. -/
abbrev Reader (α : Type) := Json → Option α

/-! ### Scalars and lists -/

/-- A truth value. -/
def asBool? : Reader Bool
  | bool b => some b
  | _ => none

/-- A natural number of at most `bits` binary digits. -/
def asNat? (bits : Nat) : Reader Nat
  | nat n => if n < Nat.pow 2 bits then some n else none
  | _ => none

/-- A text. -/
def asString? : Reader String
  | string s => some s
  | _ => none

/-- The name of an alternative: the name itself, or an object with the name as its only field
and nothing in it. -/
def asName? : Reader String
  | string s => some s
  | object [(key, null)] => key.text?
  | _ => none

/-- A list. -/
def asList? (item : Reader α) : Reader (List α)
  | array items => items.mapM item
  | _ => none

/-- A value that may be null. -/
def asOptional? (value : Reader α) : Reader (Option α)
  | null => some none
  | v => (value v).map some

/-- The fields of an object with arbitrary keys, in order. -/
def asEntries? (key : Key → Option κ) (value : Reader α) : Reader (List (κ × α))
  | object fields => fields.mapM fun (k, v) => do return (← key k, ← value v)
  | _ => none

/-- Reading the fields of a written object gives them back. -/
@[simp] theorem asEntries?_ofFields (fields : List (String × Json)) :
    asEntries? Key.text? some (ofFields fields) = some fields := by
  induction fields with
  | nil => rfl
  | cons field rest ih =>
    simp only [ofFields, asEntries?, List.map_cons, List.mapM_cons] at ih ⊢
    rw [ih]
    rfl

/-! ### Records -/

/-- The known fields of a record, and whether they were given as a list. -/
structure Record where
  fields : List (String × Json)
  listed : Bool

/-- Whether a known field is given twice. -/
def hasDuplicate (names : List String) : List (String × Json) → Bool
  | [] => false
  | (k, _) :: fs => (names.contains k && fs.any (·.1 == k)) || hasDuplicate names fs

/-- The fields of a record, given their names in declared order. -/
def asRecord? (names : List String) : Reader Record
  | object fields =>
    match asEntries? Key.text? some (object fields) with
    | none => none
    | some fields =>
      if hasDuplicate names fields || !fields.all (·.2.isWhole) then none
      else some ⟨fields.filter (names.contains ·.1), false⟩
  | array items => if names.length < items.length then none else some ⟨names.zip items, true⟩
  | _ => none

namespace Record

/-- A field that must be given. -/
def required (r : Record) (name : String) (value : Reader α) : Option α :=
  (r.fields.lookup name).bind value

/-- A field with a default. -/
def defaulted (r : Record) (name : String) (default : α) (value : Reader α) : Option α :=
  match r.fields.lookup name with
  | none => some default
  | some v => value v

/-- A field that may be left out or null. -/
def optional (r : Record) (name : String) (value : Reader α) : Option (Option α) :=
  r.defaulted name none (asOptional? value)

/-- A field that may be null, or left out of an object. -/
def nullable (r : Record) (name : String) (value : Reader α) : Option (Option α) :=
  if r.listed then r.required name (asOptional? value) else r.optional name value

end Record

/-! ### Records with faults of their own

Where a field can be wrong in more ways than in shape, the first fault in
the order of the text counts, so fields are taken one by one. -/

/-- Goes through the fields of an object, `seen` being the known names met so far. -/
def foldFields (names : List String) (shape : ε) (step : σ → String → Json → Except ε σ) :
    (seen : List String) → σ → List (Key × Json) → Except ε σ
  | _, state, [] => .ok state
  | seen, state, (key, v) :: rest =>
    match key.text? with
    | none => .error shape
    | some name =>
      if names.contains name then
        if seen.contains name then .error shape
        else
          match step state name v with
          | .error e => .error e
          | .ok state => foldFields names shape step (name :: seen) state rest
      else if v.isWhole then foldFields names shape step seen state rest
      else .error shape

/-- Goes through the fields of a record in the order of the text. -/
def foldRecord (names : List String) (shape : ε) (step : σ → String → Json → Except ε σ)
    (init : σ) : Json → Except ε σ
  | object fields => foldFields names shape step [] init fields
  | array items =>
    match foldFields names shape step [] init ((names.map Key.plain).zip items) with
    | .error e => .error e
    | .ok state => if names.length < items.length then .error shape else .ok state
  | _ => .error shape

/-- Goes through the items of a list in order. -/
def foldItems (shape : ε) (item : Json → Except ε α) : Json → Except ε (List α)
  | array items => items.mapM item
  | _ => .error shape

end TreeLint.Json
