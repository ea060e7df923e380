/-
TreeLint/Config/Basic.lean

Settings: how an analysis runs, what it reports and how that is shown.
Every setting has a default.

Rules are selected in this order: a rule that a `disabled` pattern selects is
off, and so is one whose id starts with an `ignore` entry in any letter case;
if there are `enabled` patterns they decide; otherwise the rule's category has
to be listed, if any are, and the rule be on by default.
-/
import TreeLint.Config.Document
import TreeLint.Dict
import TreeLint.Glob.Expression
import TreeLint.Path
import TreeLint.Rule

namespace TreeLint

/-- How results are written. -/
inductive OutputFormat where
  | text | json
  deriving DecidableEq, Repr, Inhabited

namespace OutputFormat

instance : Named OutputFormat where
  all := [text, json]
  name
    | text => "text"
    | json => "json"

/-- The format that a word stands for, in any letter case. -/
def ofWord? (word : String) : Option OutputFormat :=
  match Text.lower word with
  | "text" => some text
  | "json" => some json
  | _ => none

/-- The message for a word that stands for no format. -/
def unknownMessage (word : String) : String :=
  "Unknown output format: " ++ word

end OutputFormat

/-- When results are coloured. -/
inductive ColorMode where
  | auto | always | never
  deriving DecidableEq, Repr, Inhabited

instance : Named ColorMode where
  all := [.auto, .always, .never]
  name
    | .auto => "auto"
    | .always => "always"
    | .never => "never"

/-- How an analysis runs; no jobs stands for one per processor. -/
structure EngineSettings where
  parallel : Bool := true
  jobs : Nat := 0
  deriving DecidableEq, Repr, Inhabited

/-- How results are shown. -/
structure OutputSettings where
  format : OutputFormat := .text
  color : ColorMode := .auto
  verbose : Bool := false
  deriving DecidableEq, Repr, Inhabited

/-- Which rules are on, how severe they are, and in which files they are ignored. -/
structure RuleSettings where
  disabled : List String := []
  enabled : List String := []
  ignore : List String := []
  severity : Dict Severity := {}
  perFile : Dict (List String) := {}
  deriving DecidableEq, Repr, Inhabited

/-- What counts as generated code. -/
structure GeneratedCodeSettings where
  patterns : List String := ["**/*.g.cs", "**/*.designer.cs", "**/*.generated.cs"]
  detectHeader : Bool := true
  deriving DecidableEq, Repr, Inhabited

/-- All settings. -/
structure Config where
  inherits : List String := []
  engine : EngineSettings := {}
  output : OutputSettings := {}
  rules : RuleSettings := {}
  generatedCode : GeneratedCodeSettings := {}
  categories : List String := []
  deriving DecidableEq, Repr, Inhabited

namespace Config

/-- The number of workers, where it is set. -/
def workers? (c : Config) : Option Nat :=
  if c.engine.jobs = 0 then none else some c.engine.jobs

/-! ### Rules -/

/-- Whether an `ignore` entry switches a rule off. -/
def ignoresId (c : Config) (r : Rule) : Bool :=
  let id := (Text.upper r.id).toList
  c.rules.ignore.any fun entry => (Text.upper entry).toList.isPrefixOf id

/-- Whether a rule is on. -/
def isEnabled (c : Config) (r : Rule) : Bool :=
  if c.rules.disabled.any r.matchesPattern then false
  else if c.ignoresId r then false
  else if !c.rules.enabled.isEmpty then c.rules.enabled.any r.matchesPattern
  else if !c.categories.isEmpty
      && !c.categories.any (Text.sameIgnoringCase · (Named.name r.category)) then false
  else r.enabledByDefault

/-- Of entries for patterns the one that selects a rule and whose pattern is the first in the order
of texts. -/
def leastMatch? (r : Rule) : List (String × Severity) → Option (String × Severity)
  | [] => none
  | (pattern, severity) :: rest =>
    match leastMatch? r rest with
    | none => if r.matchesPattern pattern then some (pattern, severity) else none
    | some best =>
      if r.matchesPattern pattern && pattern < best.1 then some (pattern, severity) else some best

/-- The severity set for a rule: by its id, else by its name, else by the least pattern that
selects it. -/
def severity? (c : Config) (r : Rule) : Option Severity :=
  c.rules.severity.get? r.id <|> c.rules.severity.get? r.name
    <|> (leastMatch? r c.rules.severity.entries).map (·.2)

/-- Whether a pattern for paths matches; one that cannot be read matches nothing. -/
def globMatches (pattern file : String) : Bool :=
  match Glob.parse pattern with
  | .ok g => g.isMatch file
  | .error _ => false

/-- Whether a rule is ignored in a file. -/
def ignoresInFile (c : Config) (r : Rule) (file : Path) : Bool :=
  c.rules.perFile.entries.any fun (pattern, rules) =>
    globMatches pattern file.text && rules.any r.matchesPattern

/-- Looks for an entry that makes a rule ignored in a file.  The search fails at a pattern that is
nested too deeply to be matched. -/
def searchPerFile (r : Rule) (file : Path) : List (String × List String) → Option Bool
  | [] => some false
  | (pattern, rules) :: rest =>
    match Glob.parse pattern with
    | .error _ => searchPerFile r file rest
    | .ok g =>
      if g.isTooDeep then none
      else if g.isMatch file.text && rules.any r.matchesPattern then some true
      else searchPerFile r file rest

/-- Whether a rule is ignored in a file, if all patterns on the way to the answer can be
matched. -/
def ignoresInFile? (c : Config) (r : Rule) (file : Path) : Option Bool :=
  searchPerFile r file c.rules.perFile.entries

/-- An answer that is found is the right one. -/
theorem ignoresInFile_of_ignoresInFile? {c : Config} {r : Rule} {file : Path} {b : Bool}
    (h : c.ignoresInFile? r file = some b) : c.ignoresInFile r file = b := by
  simp only [ignoresInFile?] at h
  simp only [ignoresInFile]
  generalize c.rules.perFile.entries = entries at h ⊢
  induction entries with
  | nil => simpa [searchPerFile] using h
  | cons entry rest ih =>
    obtain ⟨pattern, rules⟩ := entry
    simp only [searchPerFile] at h
    rw [List.any_cons]
    cases hg : Glob.parse pattern with
    | error fault =>
      have hm : globMatches pattern file.text = false := by simp [globMatches, hg]
      rw [hg] at h
      simpa [hm] using ih h
    | ok g =>
      have hm : globMatches pattern file.text = g.isMatch file.text := by simp [globMatches, hg]
      rw [hg] at h
      simp only [hm] at h ⊢
      split at h
      · simp at h
      · split at h
        · rename_i hm
          rw [hm]
          simpa using h
        · rename_i hm
          rw [Bool.not_eq_true] at hm
          rw [hm]
          simpa using ih h

/-! ### Presets and merging -/

/-- Settings that can be built on by name. -/
def preset? : String → Option Config
  | "recommended" => some { categories := ["correctness", "suspicious", "style"] }
  | "strict" => some { rules := { enabled := ["*"], severity := .single "SC*" .error } }
  | "minimal" => some { categories := ["correctness"] }
  | _ => none

/-- The list with each new entry that it does not have yet. -/
def addMissing (old new : List String) : List String :=
  new.foldl (fun acc p => if acc.contains p then acc else acc ++ [p]) old

/-- Settings built on `base`: where `layer` says something, it takes precedence. -/
def merge (base layer : Config) : Config where
  inherits := base.inherits
  engine := {
    parallel := layer.engine.parallel
    jobs := if layer.engine.jobs ≠ 0 then layer.engine.jobs else base.engine.jobs }
  output := {
    format := if layer.output.format ≠ .text then layer.output.format else base.output.format
    color := if layer.output.color ≠ .auto then layer.output.color else base.output.color
    verbose := base.output.verbose || layer.output.verbose }
  rules := {
    disabled := base.rules.disabled ++ layer.rules.disabled
    enabled := if layer.rules.enabled.isEmpty then base.rules.enabled else layer.rules.enabled
    ignore := base.rules.ignore ++ layer.rules.ignore
    severity := base.rules.severity.insertAll layer.rules.severity
    perFile := base.rules.perFile.appendAll layer.rules.perFile }
  generatedCode := {
    patterns := addMissing base.generatedCode.patterns layer.generatedCode.patterns
    detectHeader := layer.generatedCode.detectHeader }
  categories := if layer.categories.isEmpty then base.categories else layer.categories

/-- What a command line sets. -/
structure Overrides where
  format : Option OutputFormat := none
  verbose : Option Bool := none
  jobs : Option Nat := none
  disabled : Option (List String) := none
  enabled : Option (List String) := none
  deriving DecidableEq, Repr, Inhabited

/-- Settings with what a command line sets; disabled rules are added, all else is exchanged. -/
def override (c : Config) (o : Overrides) : Config :=
  { c with
    engine := { c.engine with jobs := o.jobs.getD c.engine.jobs }
    output := { c.output with
      format := o.format.getD c.output.format
      verbose := o.verbose.getD c.output.verbose }
    rules := { c.rules with
      disabled := c.rules.disabled ++ o.disabled.getD []
      enabled := o.enabled.getD c.rules.enabled } }

end Config

/-! ### Reading and writing -/

namespace EngineSettings

/-- Reads how an analysis runs. -/
def read? [Document V] (v : V) : Document.Reading EngineSettings := do
  let fs ← Document.record? ["parallel", "jobs"] v
  return {
    parallel := ← Document.field fs "parallel" true Document.flag?
    jobs := ← Document.field fs "jobs" 0 Document.count? }

end EngineSettings

namespace OutputSettings

/-- Reads how results are shown. -/
def read? [Document V] (v : V) : Document.Reading OutputSettings := do
  let fs ← Document.record? ["format", "color", "verbose"] v
  return {
    format := ← Document.field fs "format" .text Document.named?
    color := ← Document.field fs "color" .auto Document.named?
    verbose := ← Document.field fs "verbose" false Document.flag? }

end OutputSettings

namespace RuleSettings

/-- Reads a map whose values are read by `value`. -/
def readDict? [Document V] (value : V → Document.Reading α) (v : V) :
    Document.Reading (Dict α) := do
  let entries ← Document.entries? v
  let entries ← entries.mapM fun (k, v) => return (k, ← value v)
  return Dict.ofEntries entries

/-- Reads which rules are on and how severe they are. -/
def read? [Document V] (v : V) : Document.Reading RuleSettings := do
  let fs ← Document.record? ["disabled", "enabled", "ignore", "severity", "per_file"] v
  return {
    disabled := ← Document.field fs "disabled" [] Document.texts?
    enabled := ← Document.field fs "enabled" [] Document.texts?
    ignore := ← Document.field fs "ignore" [] Document.texts?
    severity := ← Document.field fs "severity" {} (readDict? Document.named?)
    perFile := ← Document.field fs "per_file" {} (readDict? Document.texts?) }

end RuleSettings

namespace GeneratedCodeSettings

/-- Reads what counts as generated code. -/
def read? [Document V] (v : V) : Document.Reading GeneratedCodeSettings := do
  let fs ← Document.record? ["patterns", "detect_header"] v
  let standard : GeneratedCodeSettings := {}
  return {
    patterns := ← Document.field fs "patterns" standard.patterns Document.texts?
    detectHeader := ← Document.field fs "detect_header" standard.detectHeader Document.flag? }

end GeneratedCodeSettings

namespace Config

/-- Reads settings. -/
def read? [Document V] (v : V) : Document.Reading Config := do
  let fs ← Document.record? ["extends", "engine", "output", "rules", "generated_code",
    "categories"] v
  return {
    inherits := ← Document.field fs "extends" [] Document.texts?
    engine := ← Document.field fs "engine" {} EngineSettings.read?
    output := ← Document.field fs "output" {} OutputSettings.read?
    rules := ← Document.field fs "rules" {} RuleSettings.read?
    generatedCode := ← Document.field fs "generated_code" {} GeneratedCodeSettings.read?
    categories := ← Document.field fs "categories" [] Document.texts? }

/-- The settings that a JSON value stands for. -/
def ofJson? (v : Json) : Option Config := (read? v).run' 0

/-- The settings that a YAML document stands for. -/
def ofYaml? (v : Yaml) : Option Config := (read? v).run' v.lookups

/-- Writes settings in full. -/
def write (c : Config) : Json :=
  let texts := Json.ofList Json.string
  .ofFields [
    ("extends", texts c.inherits),
    ("engine", .ofFields [("parallel", .bool c.engine.parallel), ("jobs", .nat c.engine.jobs)]),
    ("output", .ofFields [("format", Named.write c.output.format),
      ("color", Named.write c.output.color), ("verbose", .bool c.output.verbose)]),
    ("rules", .ofFields [("disabled", texts c.rules.disabled), ("enabled", texts c.rules.enabled),
      ("ignore", texts c.rules.ignore),
      ("severity", .ofFields (c.rules.severity.entries.map fun (k, s) => (k, Named.write s))),
      ("per_file", .ofFields (c.rules.perFile.entries.map fun (k, rs) => (k, texts rs)))]),
    ("generated_code", .ofFields [("patterns", texts c.generatedCode.patterns),
      ("detect_header", .bool c.generatedCode.detectHeader)]),
    ("categories", texts c.categories)]

end Config

end TreeLint
