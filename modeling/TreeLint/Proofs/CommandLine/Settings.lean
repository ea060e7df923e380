/-
TreeLint/Proofs/CommandLine/Settings.lean

What the command line changes in the settings.

A check runs with the settings of its configuration file, changed by the options
(`checkSettings`).  An option that is given takes effect, and all other settings
stay as they are configured (`Config.AgreeBut`), except for one: the flag for
verbose output is passed on even where it is left out, and then it says no.

So a check keeps every setting that no option names just if verbose output is not
configured, or is asked for as well (`agreeBut_checkSettings_iff`).
-/
import Mathlib.Data.List.Basic
import TreeLint.Proofs.CommandLine.Jobs

namespace TreeLint

/-! ### Settings with an option -/

/-- A setting that has an option of its own. -/
inductive Setting where
  | verbose | jobs | disabled | enabled | format
  deriving DecidableEq, Repr

/-- The settings `c'` are those of `c`, except perhaps the named ones. -/
structure Config.AgreeBut (named : Setting → Prop) (c c' : Config) : Prop where
  verbose_eq : ¬ named .verbose → c'.output.verbose = c.output.verbose
  jobs_eq : ¬ named .jobs → c'.engine.jobs = c.engine.jobs
  disabled_eq : ¬ named .disabled → c'.rules.disabled = c.rules.disabled
  enabled_eq : ¬ named .enabled → c'.rules.enabled = c.rules.enabled
  format_eq : ¬ named .format → c'.output.format = c.output.format
  -- no option is about these
  inherits_eq : c'.inherits = c.inherits
  parallel_eq : c'.engine.parallel = c.engine.parallel
  color_eq : c'.output.color = c.output.color
  ignore_eq : c'.rules.ignore = c.rules.ignore
  severity_eq : c'.rules.severity = c.rules.severity
  perFile_eq : c'.rules.perFile = c.rules.perFile
  generatedCode_eq : c'.generatedCode = c.generatedCode
  categories_eq : c'.categories = c.categories

namespace CommandLine

variable {files : FileTree} {home : Option Path} {g : General} {format : Option OutputFormat}
variable {c : Config} {s : Session} {patterns : List String} {timing exitZero : Bool}

/-- The option of a setting is given. -/
def Names (g : General) (format : Option OutputFormat) : Setting → Prop
  | .verbose => g.verbose = true
  | .jobs => g.jobs ≠ none
  | .disabled => g.disable ≠ none
  | .enabled => g.select ≠ none
  | .format => format ≠ none

/-- The settings `c'` have come of `c` as the option of a setting asks for. -/
def Obeys (g : General) (format : Option OutputFormat) (c c' : Config) : Setting → Prop
  | .verbose => c'.output.verbose = true
  | .jobs => g.jobs = some c'.engine.jobs
  | .disabled => ∃ more, g.disable = some more ∧ c'.rules.disabled = c.rules.disabled ++ more
  | .enabled => g.select = some c'.rules.enabled
  | .format => format = some c'.output.format

/-! ### The settings of a check -/

/-- The settings of a run as they are configured, before the options have their say. -/
def configured (files : FileTree) (home : Option Path) (g : General) :
    Except ConfigError Config :=
  match g.config with
  | some path => Config.load files path
  | none => Config.loadFrom files (⟨"."⟩ :: home.toList)

/-- The settings that a check runs with where `c` is configured. -/
def checkSettings (g : General) (format : Option OutputFormat) (c : Config) : Config :=
  (c.override g.overrides).override { format }

/-- A check with the given settings. -/
def checkWith (config : Config) (g : General) (patterns : List String)
    (timing exitZero : Bool) : Job Nat := do
  let colored ← useColor g config
  let paths ← snapshotFiles patterns
  let engine ← engineFor config
  let report := engine.analyzeAll (← paths.mapM loadSnapshot)
  let shown := ReportFormat.ofSettings config.output.format colored config.output.verbose
  modify fun s => { s with output := s.output ++ [.report shown report] }
  if timing then
    Job.tell ""
    Job.tell (report.timingTable?.getD "")
  return if exitZero then 0 else report.exitCode

theorem check_eq (home : Option Path) (g : General) (patterns : List String)
    (format : Option OutputFormat) (timing exitZero : Bool) :
    check home g patterns format timing exitZero = (do
      let config ← loadConfig home g
      checkWith (config.override { format }) g patterns timing exitZero) := rfl

theorem exec_loadConfig (h : configured s.files home g = .ok c) :
    (loadConfig home g).exec s = (.ok (c.override g.overrides), s) := by
  unfold configured at h
  rw [loadConfig, Job.exec_get_bind]
  rcases hconfig : g.config with - | path <;>
  · rw [hconfig] at h
    dsimp only at h ⊢
    rw [h]
    rfl

/-- A check has its settings before it does anything else. -/
theorem exec_check (h : configured s.files home g = .ok c) :
    (check home g patterns format timing exitZero).exec s
      = (checkWith (checkSettings g format c) g patterns timing exitZero).exec s := by
  rw [check_eq, Job.exec_bind_of_ok (exec_loadConfig h)]
  rfl

/-! ### What they keep -/

theorem verbose_checkSettings (g : General) (format : Option OutputFormat) (c : Config) :
    (checkSettings g format c).output.verbose = g.verbose := rfl

theorem getD_eq_of_not_ne {α : Type} {o : Option α} (h : ¬ o ≠ none) (a : α) : o.getD a = a := by
  rw [Classical.not_not.mp h, Option.getD_none]

/-- The settings of a check are those configured, but for verbose output and what is named. -/
theorem agreeBut_checkSettings (g : General) (format : Option OutputFormat) (c : Config) :
    c.AgreeBut (fun x => x = .verbose ∨ Names g format x) (checkSettings g format c) where
  verbose_eq h := absurd (.inl rfl) h
  jobs_eq h := getD_eq_of_not_ne (fun hjobs => h (.inr hjobs)) _
  disabled_eq h := by
    have hnone := getD_eq_of_not_ne (fun hdisable => h (.inr hdisable)) ([] : List String)
    show c.rules.disabled ++ g.disable.getD [] ++ [] = c.rules.disabled
    rw [hnone, List.append_nil, List.append_nil]
  enabled_eq h := getD_eq_of_not_ne (fun hselect => h (.inr hselect)) _
  format_eq h := getD_eq_of_not_ne (fun hformat => h (.inr hformat)) _
  inherits_eq := rfl
  parallel_eq := rfl
  color_eq := rfl
  ignore_eq := rfl
  severity_eq := rfl
  perFile_eq := rfl
  generatedCode_eq := rfl
  categories_eq := rfl

/-- They keep verbose output as well, unless it is configured and not asked for. -/
theorem agreeBut_checkSettings_iff :
    c.AgreeBut (Names g format) (checkSettings g format c)
      ↔ (c.output.verbose = true → g.verbose = true) := by
  have hagree := agreeBut_checkSettings g format c
  constructor
  · intro h hverbose
    rcases hflag : g.verbose with - | -
    · have hkept := h.verbose_eq (by rw [Names, hflag]; exact Bool.false_ne_true)
      rw [verbose_checkSettings, hflag, hverbose] at hkept
      exact hkept
    · rfl
  · intro h
    refine { hagree with
      verbose_eq := fun hflag => ?_
      jobs_eq := fun hjobs => hagree.jobs_eq (by simpa using hjobs)
      disabled_eq := fun hdisable => hagree.disabled_eq (by simpa using hdisable)
      enabled_eq := fun hselect => hagree.enabled_eq (by simpa using hselect)
      format_eq := fun hformat => hagree.format_eq (by simpa using hformat) }
    have hoff : c.output.verbose = false := Bool.eq_false_iff.mpr fun hverbose => hflag (h hverbose)
    rw [verbose_checkSettings, hoff]
    exact Bool.eq_false_iff.mpr hflag

/-- What is asked for is done. -/
theorem obeys_checkSettings (c : Config) {x : Setting} (h : Names g format x) :
    Obeys g format c (checkSettings g format c) x := by
  cases x with
  | verbose => exact h
  | jobs =>
    obtain ⟨n, hn⟩ := Option.ne_none_iff_exists'.mp h
    show g.jobs = some (g.jobs.getD c.engine.jobs)
    rw [hn, Option.getD_some]
  | disabled =>
    obtain ⟨more, hmore⟩ := Option.ne_none_iff_exists'.mp h
    refine ⟨more, hmore, ?_⟩
    show c.rules.disabled ++ g.disable.getD [] ++ [] = c.rules.disabled ++ more
    rw [hmore, Option.getD_some, List.append_nil]
  | enabled =>
    obtain ⟨only, honly⟩ := Option.ne_none_iff_exists'.mp h
    show g.select = some (g.select.getD c.rules.enabled)
    rw [honly, Option.getD_some]
  | format =>
    obtain ⟨f, hf⟩ := Option.ne_none_iff_exists'.mp h
    show format = some (format.getD c.output.format)
    rw [hf, Option.getD_some]

/-- **The command line overrides what it names, and verbose output.**  A check runs with the
settings that are configured, changed as the given options ask for.  Those without a given option
are as configured, except that verbose output is on only if the option is given; so all of them are
as configured exactly if verbose output is not, or is asked for. -/
theorem check_overrides (home : Option Path) (g : General) (patterns : List String)
    (format : Option OutputFormat) (timing exitZero : Bool) (s : Session) (c : Config)
    (h : configured s.files home g = .ok c) :
    (check home g patterns format timing exitZero).exec s
      = (checkWith (checkSettings g format c) g patterns timing exitZero).exec s ∧
    (∀ x, Names g format x → Obeys g format c (checkSettings g format c) x) ∧
    c.AgreeBut (fun x => x = .verbose ∨ Names g format x) (checkSettings g format c) ∧
    (checkSettings g format c).output.verbose = g.verbose ∧
    (c.AgreeBut (Names g format) (checkSettings g format c)
      ↔ (c.output.verbose = true → g.verbose = true)) :=
  ⟨exec_check h, fun _ hx => obeys_checkSettings c hx, agreeBut_checkSettings g format c,
    verbose_checkSettings g format c, agreeBut_checkSettings_iff⟩

/-- Files with settings that ask for verbose output. -/
def verboseFiles : FileTree where
  files := [([".sharpcheck.yaml"], "engine:\n  jobs: 4\noutput:\n  verbose: true\n")]

/-- The settings configured there. -/
def verboseConfig : Config where
  engine := { jobs := 4 }
  output := { verbose := true }

theorem configured_verboseFiles (g : General) (h : g.config = none) :
    configured verboseFiles none g = .ok verboseConfig := by
  rw [configured, h]
  show Config.loadFrom verboseFiles [⟨"."⟩] = .ok verboseConfig
  decide +kernel

theorem check_overrides_verboseFiles :
    let g : General := { verbose := true, jobs := some 2, disable := some ["SC0002"] }
    let s : Session := { files := verboseFiles, colored := false }
    configured s.files none g = .ok verboseConfig ∧
      (check none g ["*.json"] (some .json) false false).exec s
        = (checkWith { verboseConfig with
            engine := { jobs := 2 }
            output := { format := .json, verbose := true }
            rules := { disabled := ["SC0002"] } } g ["*.json"] false false).exec s ∧
      verboseConfig.AgreeBut (Names g (some .json)) (checkSettings g (some .json) verboseConfig) := by
  intro g s
  have h : configured s.files none g = .ok verboseConfig := configured_verboseFiles g rfl
  obtain ⟨hexec, -, -, -, hagree⟩ := check_overrides none g ["*.json"] (some .json) false false s
    verboseConfig h
  exact ⟨h, hexec, hagree.mpr fun _ => rfl⟩

/-- A setting can be lost without an option that names it. -/
theorem not_agreeBut_checkSettings :
    ¬ ∀ (files : FileTree) (home : Option Path) (g : General) (format : Option OutputFormat)
      (c : Config), configured files home g = .ok c →
        c.AgreeBut (Names g format) (checkSettings g format c) := by
  intro h
  have hagree := h verboseFiles none {} none verboseConfig (configured_verboseFiles {} rfl)
  exact absurd (agreeBut_checkSettings_iff.mp hagree rfl) Bool.false_ne_true

end CommandLine

end TreeLint
