/-
TreeLint/Diagnostic.lean

Diagnostics: what analyses report.  A diagnostic says which rule was
violated, where, and how bad that is, and carries a typed payload for the fix
of the rule.

Diagnostics are ordered by file, start, end and rule (`Diagnostic.compare`);
two different diagnostics may be level.
-/
import TreeLint.Path
import TreeLint.Rule
import TreeLint.Span

namespace TreeLint

/-- A place in a file, as bytes and as line and column. -/
structure Location where
  file : Path
  span : Span
  line : Nat
  column : Nat
  deriving DecidableEq, Repr, Inhabited

/-- What an analysis hands to the fix of its rule. -/
inductive Payload where
  | nothing
  | pairedOverride (equalsImplemented : Bool)
  | missingEnumCases (enumName : String) (missing : List String)
  | nameOfCandidate (propertyName : String)
  deriving DecidableEq, Repr, Inhabited

namespace Payload

/-- The payload as named texts. -/
def entries : Payload → List (String × String)
  | nothing => []
  | pairedOverride e => [("is_equals_implemented", if e then "true" else "false")]
  | missingEnumCases n ms => [("enum_name", n), ("missing_members", ",".intercalate ms)]
  | nameOfCandidate p => [("property_name", p)]

end Payload

/-- A reported violation of a rule. -/
structure Diagnostic where
  ruleId : String
  severity : Severity
  message : String
  location : Location
  payload : Payload := .nothing
  sourceLine : Option String := none
  help : Option String := none
  inTestCode : Bool := false
  notes : List String := []
  deriving DecidableEq, Repr, Inhabited

namespace Diagnostic

/-- The bytes that the diagnostic is about. -/
def span (d : Diagnostic) : Span := d.location.span

/-- Whether the diagnostic is an error. -/
def isError (d : Diagnostic) : Bool := d.severity == .error

/-- Whether the diagnostic is a warning. -/
def isWarning (d : Diagnostic) : Bool := d.severity == .warning

/-- Texts by code point. -/
def compareText (s t : String) : Ordering :=
  if s = t then .eq else if s < t then .lt else .gt

/-- The order in which diagnostics are listed. -/
def compare (a b : Diagnostic) : Ordering :=
  (a.location.file.compare b.location.file).then <|
    (Ord.compare a.span.start b.span.start).then <|
      (Ord.compare a.span.stop b.span.stop).then (compareText a.ruleId b.ruleId)

/-- Diagnostics in order; those that are level keep their places. -/
def sort (ds : List Diagnostic) : List Diagnostic :=
  ds.mergeSort fun a b => a.compare b != .gt

end Diagnostic

/-! ### JSON -/

/-- Reads a span. -/
def Span.read? : Json.Reader Span := fun v => do
  let r ← v.asRecord? ["start", "end"]
  return ⟨← r.required "start" (Json.asNat? 64), ← r.required "end" (Json.asNat? 64)⟩

/-- Writes a span. -/
def Span.write (s : Span) : Json :=
  .ofFields [("start", .nat s.start), ("end", .nat s.stop)]

namespace Location

/-- Reads a location. -/
def read? : Json.Reader Location := fun v => do
  let r ← v.asRecord? ["file", "span", "line", "column"]
  return {
    file := ⟨← r.required "file" Json.asString?⟩
    span := ← r.required "span" Span.read?
    line := ← r.required "line" (Json.asNat? 64)
    column := ← r.required "column" (Json.asNat? 64) }

/-- Writes a location. -/
def write (l : Location) : Json :=
  .ofFields [("file", .string l.file.text), ("span", l.span.write), ("line", .nat l.line),
    ("column", .nat l.column)]

end Location

namespace Payload

/-- The kind of a payload, and what holds its fields: an object that names the kind among them, or
a list that starts with it. -/
def kind? : Json → Option (String × Json)
  | .object fields => do
    let r ← Json.asRecord? ["kind"] (.object fields)
    return (← r.required "kind" Json.asString?, .object fields)
  | .array (kind :: fields) => kind.asString?.map (·, .array fields)
  | _ => none

/-- Reads a payload; in an object, fields of other kinds are ignored. -/
def read? : Json.Reader Payload := fun v => do
  match ← kind? v with
  | ("none", fields) =>
    let _ ← fields.asRecord? []
    return .nothing
  | ("paired_override", fields) =>
    let r ← fields.asRecord? ["equals_implemented"]
    return .pairedOverride (← r.required "equals_implemented" Json.asBool?)
  | ("missing_enum_cases", fields) =>
    let r ← fields.asRecord? ["enum_name", "missing_members"]
    return .missingEnumCases (← r.required "enum_name" Json.asString?)
      (← r.required "missing_members" (Json.asList? Json.asString?))
  | ("name_of_candidate", fields) =>
    let r ← fields.asRecord? ["property_name"]
    return .nameOfCandidate (← r.required "property_name" Json.asString?)
  | _ => none

/-- Writes a payload. -/
def write : Payload → Json
  | nothing => .ofFields [("kind", .string "none")]
  | pairedOverride e =>
    .ofFields [("kind", .string "paired_override"), ("equals_implemented", .bool e)]
  | missingEnumCases n ms =>
    .ofFields [("kind", .string "missing_enum_cases"), ("enum_name", .string n),
      ("missing_members", .ofList .string ms)]
  | nameOfCandidate p =>
    .ofFields [("kind", .string "name_of_candidate"), ("property_name", .string p)]

end Payload

namespace Diagnostic

/-- Reads a diagnostic. -/
def read? : Json.Reader Diagnostic := fun v => do
  let r ← v.asRecord? ["rule_id", "severity", "message", "location", "properties", "source_line",
    "help", "in_test_code", "notes"]
  return {
    ruleId := ← r.required "rule_id" Json.asString?
    severity := ← r.required "severity" Named.read?
    message := ← r.required "message" Json.asString?
    location := ← r.required "location" Location.read?
    payload := ← r.defaulted "properties" .nothing Payload.read?
    sourceLine := ← r.nullable "source_line" Json.asString?
    help := ← r.nullable "help" Json.asString?
    inTestCode := ← r.defaulted "in_test_code" false Json.asBool?
    notes := ← r.defaulted "notes" [] (Json.asList? Json.asString?) }

/-- Writes a diagnostic; an empty payload is left out. -/
def write (d : Diagnostic) : Json :=
  .ofFields ([("rule_id", .string d.ruleId), ("severity", Named.write d.severity),
      ("message", .string d.message), ("location", d.location.write)]
    ++ (if d.payload = .nothing then [] else [("properties", d.payload.write)])
    ++ [("source_line", .ofOption .string d.sourceLine), ("help", .ofOption .string d.help),
      ("in_test_code", .bool d.inTestCode), ("notes", .ofList .string d.notes)])

end Diagnostic

end TreeLint
