/-
TreeLint/Rule.lean

Rules: what an analyzer can report.  A rule has an id, a name, a message
template and defaults for whether and how it is reported.

* A template has numbered slots, `{0}`, `{1}` and so on.  One pass from left
  to right fills each slot with its argument; a slot without argument stays as
  it is, and inserted text is not looked at again.
* A pattern selects rules: everything (`*` or `all`), all whose id or name
  starts with what stands before a final `*`, or the one of that id or name.
-/
import TreeLint.Named
import TreeLint.Text.Case

namespace TreeLint

/-- How bad a finding is. -/
inductive Severity where
  | info | warning | error
  deriving DecidableEq, Repr, Inhabited

namespace Severity

/-- The place in the order from harmless to bad. -/
def rank : Severity → Nat
  | info => 0
  | warning => 1
  | error => 2

instance : Named Severity where
  all := [info, warning, error]
  name
    | info => "info"
    | warning => "warning"
    | error => "error"

/-- The severity that a word stands for, in any letter case. -/
def ofWord? (word : String) : Option Severity :=
  match Text.lower word with
  | "info" | "hint" | "note" | "suggestion" => some info
  | "warning" | "warn" => some warning
  | "error" | "err" => some error
  | _ => none

end Severity

/-- What a rule is about. -/
inductive Category where
  | correctness | suspicious | style | perf | pedantic
  deriving DecidableEq, Repr, Inhabited

namespace Category

instance : Named Category where
  all := [correctness, suspicious, style, perf, pedantic]
  name
    | correctness => "correctness"
    | suspicious => "suspicious"
    | style => "style"
    | perf => "perf"
    | pedantic => "pedantic"

/-- The category that a word stands for, in any letter case. -/
def ofWord? (word : String) : Option Category :=
  match Text.lower word with
  | "correctness" => some correctness
  | "suspicious" => some suspicious
  | "style" => some style
  | "perf" | "performance" => some perf
  | "pedantic" => some pedantic
  | _ => none

/-- The message for a word that stands for no category. -/
def unknownMessage (word : String) : String :=
  "Unknown category: " ++ word

end Category

/-- A rule that an analyzer checks. -/
structure Rule where
  id : String
  name : String
  title : String
  messageFormat : String
  category : Category
  defaultSeverity : Severity
  enabledByDefault : Bool
  description : String
  helpLink : Option String := none
  exampleBad : Option String := none
  exampleGood : Option String := none
  deriving DecidableEq, Repr, Inhabited

namespace Rule

/-! ### Messages -/

/-- The number of a slot at the start of a text that follows an opening brace, with what comes
after the slot. -/
def slot? (cs : List Char) : Option (Nat × List Char) :=
  match cs.takeWhile Char.isDigit, cs.dropWhile Char.isDigit with
  | d :: ds, '\x7d' :: rest =>
    some ((d :: ds).foldl (fun n c => n * 10 + (c.toNat - '0'.toNat)) 0, rest)
  | _, _ => none

/-- What follows a slot is shorter than what stood there. -/
theorem length_slot_lt {cs rest : List Char} {n : Nat} (h : slot? cs = some (n, rest)) :
    rest.length < cs.length := by
  unfold slot? at h
  split at h
  · rename_i d ds rest' _ hd
    simp only [Option.some.injEq, Prod.mk.injEq] at h
    have hle : (cs.dropWhile Char.isDigit).length ≤ cs.length := (List.dropWhile_sublist _).length_le
    rw [hd, ← h.2] at *
    simp only [List.length_cons] at hle
    omega
  · simp at h

/-- The template with its slots filled. -/
def fillSlots (args : List String) : List Char → List Char
  | [] => []
  | c :: cs =>
    if c = '\x7b' then
      match _ : slot? cs with
      | some (n, rest) =>
        (match args[n]? with
          | some arg => arg.toList
          | none => c :: cs.take (cs.length - rest.length)) ++ fillSlots args rest
      | none => c :: fillSlots args cs
    else c :: fillSlots args cs
termination_by cs => cs.length
decreasing_by
  · have := length_slot_lt (by assumption)
    simp only [List.length_cons]; omega
  · simp
  · simp

/-- The message of a finding with the given arguments. -/
def message (r : Rule) (args : List String) : String :=
  String.ofList (fillSlots args r.messageFormat.toList)

/-! ### Patterns -/

/-- Whether a pattern selects the rule. -/
def matchesPattern (r : Rule) (pattern : String) : Bool :=
  if pattern == "*" || Text.sameIgnoringCase pattern "all" then true
  else if pattern.toList.getLast? = some '*' then
    let start := pattern.toList.dropLast
    start.isPrefixOf r.id.toList || start.isPrefixOf r.name.toList
  else r.id == pattern || r.name == pattern

/-- The written form, id and name. -/
def render (r : Rule) : String :=
  r.id ++ " (" ++ r.name ++ ")"

/-- Writes a rule with all its fields. -/
def write (r : Rule) : Json :=
  .ofFields [("id", .string r.id), ("name", .string r.name), ("title", .string r.title),
    ("message_format", .string r.messageFormat), ("category", Named.write r.category),
    ("default_severity", Named.write r.defaultSeverity),
    ("enabled_by_default", .bool r.enabledByDefault), ("description", .string r.description),
    ("help_link", .ofOption .string r.helpLink), ("example_bad", .ofOption .string r.exampleBad),
    ("example_good", .ofOption .string r.exampleGood)]

end Rule

end TreeLint
