/-
TreeLint/Proofs/Analysis/Settings.lean

Rule settings filter and relabel, and do nothing else.

The settings of a rule are looked at twice: an analyzer none of whose rules is
on takes no part, and what was reported is selected once more at the end.  One
more entry that switches rules off *narrows* the settings: a rule is shown in a
file if it was before and the new entry has nothing against it
(`Engine.Narrows`).  Then

* a unit pushes what it pushed before, without what is of a rule that is off
  now (`Engine.pushes_withRules`), so the schedules are the same up to that;
* what is of a rule that is off would not be selected, so it might as well be
  pushed (`Engine.diagnostics_filter_isOn`);
* to select under the narrower settings is to select under the others and to
  filter (`Engine.select?_withRules`);
* filtering and sorting can be done in either order (`Diagnostic.sort_filter`).

Severities are entered at the end and are not looked at by anything, the sort
included (`Engine.forall₂_withSeverity`).
-/
import TreeLint.Proofs.Analysis.Locality
import TreeLint.Proofs.Tree.Copies

namespace TreeLint

/-! ### One more entry -/

/-- The list has `p`, and apart from it what the old list has. -/
def Adds (p : String) (old new : List String) : Prop := ∀ q, q ∈ new ↔ q = p ∨ q ∈ old

/-- The map has `p` in a list of `key`, and apart from it what the old map has. -/
def AddsUnder (key p : String) (old new : Dict (List String)) : Prop :=
  ∀ k q, (∃ qs, (k, qs) ∈ new.entries ∧ q ∈ qs) ↔
    (k = key ∧ q = p) ∨ ∃ qs, (k, qs) ∈ old.entries ∧ q ∈ qs

theorem Adds.any_eq {p : String} {old new : List String} (h : Adds p old new)
    (f : String → Bool) : new.any f = (f p || old.any f) := by
  rw [Bool.eq_iff_iff, Bool.or_eq_true, List.any_eq_true, List.any_eq_true]
  constructor
  · rintro ⟨q, hq, hf⟩
    rcases (h q).mp hq with rfl | hq
    · exact .inl hf
    · exact .inr ⟨q, hq, hf⟩
  · rintro (hf | ⟨q, hq, hf⟩)
    · exact ⟨p, (h p).mpr (.inl rfl), hf⟩
    · exact ⟨q, (h q).mpr (.inr hq), hf⟩

theorem AddsUnder.any_eq {key p : String} {old new : Dict (List String)}
    (h : AddsUnder key p old new) (f g : String → Bool) :
    (new.entries.any fun (k, qs) => f k && qs.any g)
      = ((f key && g p) || old.entries.any fun (k, qs) => f k && qs.any g) := by
  have hany : ∀ d : Dict (List String), (d.entries.any fun (k, qs) => f k && qs.any g) = true ↔
      ∃ k q, (∃ qs, (k, qs) ∈ d.entries ∧ q ∈ qs) ∧ f k = true ∧ g q = true := by
    intro d
    simp only [List.any_eq_true, Bool.and_eq_true, Prod.exists]
    constructor
    · rintro ⟨k, qs, hmem, hf, q, hq, hg⟩
      exact ⟨k, q, ⟨qs, hmem, hq⟩, hf, hg⟩
    · rintro ⟨k, q, ⟨qs, hmem, hq⟩, hf, hg⟩
      exact ⟨k, qs, hmem, hf, q, hq, hg⟩
  rw [Bool.eq_iff_iff, Bool.or_eq_true, hany, hany, Bool.and_eq_true]
  constructor
  · rintro ⟨k, q, hmem, hf, hg⟩
    rcases (h k q).mp hmem with ⟨rfl, rfl⟩ | hmem
    · exact .inl ⟨hf, hg⟩
    · exact .inr ⟨k, q, hmem, hf, hg⟩
  · rintro (⟨hf, hg⟩ | ⟨k, q, hmem, hf, hg⟩)
    · exact ⟨key, p, (h key p).mpr (.inl ⟨rfl, rfl⟩), hf, hg⟩
    · exact ⟨k, q, (h k q).mpr (.inr hmem), hf, hg⟩

/-! ### What settings say of a rule -/

namespace Config

variable {c : Config} {p : String}

/-- Whether a rule is on and not ignored in a file. -/
def shows (c : Config) (r : Rule) (file : Path) : Bool :=
  c.isEnabled r && !c.ignoresInFile r file

theorem isEnabled_withDisabled {disabled : List String} (h : Adds p c.rules.disabled disabled)
    (r : Rule) :
    isEnabled { c with rules := { c.rules with disabled } } r
      = (c.isEnabled r && !r.matchesPattern p) := by
  have hignore : ignoresId { c with rules := { c.rules with disabled } } r = c.ignoresId r := rfl
  simp only [isEnabled, h.any_eq, hignore]
  cases r.matchesPattern p <;> simp

theorem ignoresId_withIgnore {ignore : List String} (h : Adds p c.rules.ignore ignore)
    (r : Rule) :
    ignoresId { c with rules := { c.rules with ignore } } r
      = ((Text.upper p).toList.isPrefixOf (Text.upper r.id).toList || c.ignoresId r) :=
  h.any_eq _

theorem isEnabled_withIgnore {ignore : List String} (h : Adds p c.rules.ignore ignore)
    (r : Rule) :
    isEnabled { c with rules := { c.rules with ignore } } r
      = (c.isEnabled r && !(Text.upper p).toList.isPrefixOf (Text.upper r.id).toList) := by
  simp only [isEnabled, ignoresId_withIgnore h]
  cases (Text.upper p).toList.isPrefixOf (Text.upper r.id).toList <;> simp

theorem ignoresInFile_withPerFile {glob : String} {perFile : Dict (List String)}
    (h : AddsUnder glob p c.rules.perFile perFile) (r : Rule) (file : Path) :
    ignoresInFile { c with rules := { c.rules with perFile } } r file
      = (globMatches glob file.text && r.matchesPattern p || c.ignoresInFile r file) :=
  h.any_eq (globMatches · file.text) r.matchesPattern

end Config

/-! ### Sorting -/

namespace Diagnostic

/-- Filtering and sorting can be done in either order. -/
theorem sort_filter (p : Diagnostic → Bool) (ds : List Diagnostic) :
    sort (ds.filter p) = (sort ds).filter p := by
  apply sort_eq_of_pairwise ((pairwise_sort ds).sublist List.filter_sublist)
  intro d
  have hswap : ∀ ds : List Diagnostic,
      (ds.filter p).filter d.level = (ds.filter d.level).filter p := by
    intro ds
    simp only [List.filter_filter, Bool.and_comm]
  rw [hswap, hswap, filter_sort]

/-- The diagnostic with a severity that says nothing. -/
def withoutSeverity (d : Diagnostic) : Diagnostic := { d with severity := .info }

theorem eq_of_withoutSeverity_eq {d d' : Diagnostic}
    (h : d'.withoutSeverity = d.withoutSeverity) : d' = { d with severity := d'.severity } := by
  cases d
  cases d'
  simp only [withoutSeverity, mk.injEq] at h ⊢
  obtain ⟨hrule, -, hrest⟩ := h
  exact ⟨hrule, trivial, hrest⟩

/-- Severities have no part in the order. -/
theorem map_withoutSeverity_sort (ds : List Diagnostic) :
    (sort ds).map withoutSeverity = sort (ds.map withoutSeverity) := by
  rw [sort, sort, List.map_mergeSort]
  intro a _ b _
  rfl

end Diagnostic

namespace Engine

/-- The engine with other rule settings. -/
def withRules (e : Engine) (rules : RuleSettings) : Engine :=
  { e with config := { e.config with rules } }

variable {e : Engine} {c : Compilation} {rules : RuleSettings} {keep : Rule → Path → Bool}
variable {d : Diagnostic}

/-- Engines that are created with the same settings except for those of rules. -/
theorem create_withRules (config : Config) (rules : RuleSettings) (analyzers : List Analyzer) :
    create { config with rules } analyzers
      = (create config analyzers).map fun e => e.withRules rules := by
  show Except.map _ config.generatedGlobs = Except.map _ (Except.map _ config.generatedGlobs)
  cases config.generatedGlobs <;> rfl

/-! ### Narrower settings -/

/-- Under the new settings a rule is shown in a file if it was before and `keep` has it; no rule is
on that was off, and the severities are the same. -/
structure Narrows (keep : Rule → Path → Bool) (e : Engine) (rules : RuleSettings) : Prop where
  shows_eq : ∀ r file,
    (e.withRules rules).config.shows r file = (e.config.shows r file && keep r file)
  isEnabled_of : ∀ r, (e.withRules rules).config.isEnabled r = true → e.config.isEnabled r = true
  severity_eq : rules.severity = e.config.rules.severity

/-- Whether a diagnostic is of a rule that `keep` has in its file. -/
def keeps (e : Engine) (keep : Rule → Path → Bool) (d : Diagnostic) : Bool :=
  (e.rule? d.ruleId).all (keep · d.location.file)

theorem select?_of_rule?_eq_some {r : Rule} (hr : e.rule? d.ruleId = some r) :
    e.select? d = if e.config.shows r d.location.file then
      some { d with severity := (e.config.severity? r).getD d.severity } else none := by
  simp only [select?, hr, Config.shows]
  by_cases henabled : e.config.isEnabled r = true
  · by_cases hignored : e.config.ignoresInFile r d.location.file = true
    · simp [hignored]
    · simp [henabled, hignored]
  · simp [henabled]

/-- To select under narrower settings is to select and to filter. -/
theorem select?_withRules (h : Narrows keep e rules) (d : Diagnostic) :
    (e.withRules rules).select? d = (e.select? d).filter (e.keeps keep) := by
  have hrule : (e.withRules rules).rule? d.ruleId = e.rule? d.ruleId := rfl
  rcases hr : e.rule? d.ruleId with - | r
  · have hkeeps : e.keeps keep d = true := by
      rw [keeps, hr]
      rfl
    rw [select?, select?, hrule, hr]
    exact (if_pos hkeeps).symm
  · have hseverity : (e.withRules rules).config.severity? r = e.config.severity? r := by
      simp only [Config.severity?, withRules, h.severity_eq]
    rw [select?_of_rule?_eq_some hr, select?_of_rule?_eq_some (hrule.trans hr), h.shows_eq,
      hseverity]
    rcases e.config.shows r d.location.file with - | -
    · rfl
    · rw [Bool.true_and, if_pos rfl, Option.filter_some, keeps, hr]
      rfl

/-! ### Rules that are on -/

/-- Whether the rule of a diagnostic is on; one that no analyzer lists cannot be off. -/
def isOn (e : Engine) (d : Diagnostic) : Bool :=
  (e.rule? d.ruleId).all e.config.isEnabled

theorem select?_eq_none (h : e.isOn d = false) : e.select? d = none := by
  rw [isOn] at h
  rcases hr : e.rule? d.ruleId with - | r
  · rw [hr] at h
    cases h
  · rw [hr] at h
    have hoff : e.config.isEnabled r = false := h
    rw [select?_of_rule?_eq_some hr, Config.shows, hoff]
    rfl

theorem filterMap_filter_isOn (ds : List Diagnostic) :
    (ds.filter e.isOn).filterMap e.select? = ds.filterMap e.select? := by
  rw [List.filterMap_filter]
  apply List.filterMap_congr
  intro d _
  by_cases h : e.isOn d = true
  · rw [if_pos h]
  · rw [if_neg h, select?_eq_none (eq_false_of_ne_true h)]

/-- What is pushed of rules that are off makes no difference to what is shown. -/
theorem diagnostics_filter_isOn (h : e.Unstopped c) (sink : List Diagnostic) :
    (e.analyzeScheduled c (sink.filter e.isOn)).diagnostics
      = (e.analyzeScheduled c sink).diagnostics := by
  rw [h.diagnostics_analyzeScheduled, h.diagnostics_analyzeScheduled, finish, finish,
    List.filterMap_append, List.filterMap_append, filterMap_filter_isOn]

/-! ### What the built-in analyzers report -/

theorem rule?_builtin (he : e.analyzers = builtinAnalyzers) {a : Analyzer}
    (ha : a ∈ builtinAnalyzers) : ∃ r, a.rules = [r] ∧ e.rule? r.id = some r := by
  rw [builtinAnalyzers, List.mem_cons, List.mem_cons, List.mem_singleton] at ha
  simp only [rule?, he]
  rcases ha with rfl | rfl | rfl
  · exact ⟨_, rfl, rfl⟩
  · exact ⟨_, rfl, rfl⟩
  · exact ⟨_, rfl, rfl⟩

/-- A built-in analyzer has one rule, and reports nothing else. -/
theorem exists_rule_of_mem_prepare (he : e.analyzers = builtinAnalyzers) {a : Prepared}
    (ha : a ∈ e.prepare c) : ∃ r, a.analyzer.rules = [r] ∧ e.rule? r.id = some r ∧
      ∀ u x, ∀ d ∈ nodeReports u x a, d.ruleId = r.id := by
  obtain ⟨hmem, hactions⟩ := exists_of_mem_prepare ha
  rw [he] at hmem
  obtain ⟨r, hrules, hr⟩ := rule?_builtin he hmem
  refine ⟨r, hrules, hr, ?_⟩
  intro u x d hd
  obtain ⟨ev, hev, hd⟩ := List.mem_flatMap.mp hd
  obtain ⟨-, r', hr', hid⟩ :=
    reportsOwn_of_regular hactions (regular_builtin hmem c) u x ev hev d hd
  rw [hrules, List.mem_singleton] at hr'
  rw [hid, hr']

/-- The diagnostic is of a rule that is listed. -/
def Knows (e : Engine) (d : Diagnostic) : Prop := ∃ r, e.rule? d.ruleId = some r ∧ r.id = d.ruleId

theorem knows_of_mem_unitReports (he : e.analyzers = builtinAnalyzers) {analyzers : List Prepared}
    (ha : analyzers ⊆ e.prepare c) {u : AnalysisUnit} (hd : d ∈ unitReports analyzers u) :
    e.Knows d := by
  rw [unitReports_eq] at hd
  obtain ⟨x, -, hd⟩ := List.mem_flatMap.mp hd
  obtain ⟨a, hmem, hd⟩ := List.mem_flatMap.mp hd
  obtain ⟨r, -, hr, hreports⟩ := exists_rule_of_mem_prepare he (ha (List.mem_filter.mp hmem).1)
  have hid := hreports u x d hd
  exact ⟨r, hid ▸ hr, hid.symm⟩

/-- All that is shown is of rules that are listed, whatever the schedule. -/
theorem knows_of_mem_diagnostics (he : e.analyzers = builtinAnalyzers)
    (hrunning : e.cancelled = false) {sink : List Diagnostic}
    (hsink : Interleaving (e.pushes c) sink) (hd : d ∈ (e.analyzeScheduled c sink).diagnostics) :
    e.Knows d := by
  have hunstopped := unstopped_builtin he hrunning c
  rw [hunstopped.diagnostics_analyzeScheduled, reports_laterEvents he] at hd
  obtain ⟨d₀, hd₀, hselect⟩ := List.mem_filterMap.mp (List.mem_mergeSort.mp hd)
  obtain ⟨severity, rfl⟩ := exists_of_select?_eq_some hselect
  show e.Knows d₀
  rcases List.mem_append.mp hd₀ with hd₀ | hd₀
  · have hpushed := hsink.perm_flatten.mem_iff.mp hd₀
    rw [hunstopped.pushes_eq, ← List.flatMap_def] at hpushed
    obtain ⟨u, -, hd₀⟩ := List.mem_flatMap.mp hpushed
    exact knows_of_mem_unitReports he (e.passes_subset c).1 hd₀
  · obtain ⟨u, -, hd₀⟩ := List.mem_flatMap.mp hd₀
    exact knows_of_mem_unitReports he (e.passes_subset c).2 hd₀

/-! ### Analyzers that no longer take part -/

theorem unstopped_withRules (he : e.analyzers = builtinAnalyzers) (hrunning : e.cancelled = false)
    (c : Compilation) : (e.withRules rules).Unstopped c :=
  @unstopped_builtin (e.withRules rules) he hrunning c

/-- No rule is on under the new settings that is off under the old ones. -/
def SwitchesOff (e : Engine) (rules : RuleSettings) : Prop :=
  ∀ r, (e.withRules rules).config.isEnabled r = true → e.config.isEnabled r = true

section SwitchesOff

variable (h : e.SwitchesOff rules)
include h

theorem prepare_withRules (c : Compilation) :
    (e.withRules rules).prepare c = (e.prepare c).filter fun a =>
      a.analyzer.rules.any (e.withRules rules).config.isEnabled := by
  rw [prepare, prepare, List.filter_map, List.filter_filter]
  apply congrArg
  apply List.filter_congr
  intro a _
  show a.rules.any _ = (a.rules.any _ && a.rules.any _)
  rcases hany : a.rules.any (e.withRules rules).config.isEnabled with - | -
  · rfl
  · obtain ⟨r, hr, henabled⟩ := List.any_eq_true.mp hany
    rw [Bool.true_and]
    exact (List.any_eq_true.mpr ⟨r, hr, h r henabled⟩).symm

/-- What a pass reports on a unit under the new settings: what it reported before, without what is
of a rule that is off. -/
theorem unitReports_withRules (he : e.analyzers = builtinAnalyzers) (first : Prepared → Bool)
    (u : AnalysisUnit) :
    unitReports (((e.withRules rules).prepare c).filter first) u
      = (unitReports ((e.prepare c).filter first) u).filter (e.withRules rules).isOn := by
  let on (a : Prepared) : Bool := a.analyzer.rules.any (e.withRules rules).config.isEnabled
  -- an analyzer has one rule, so all that it reports is on or nothing is
  have hon : ∀ a ∈ e.prepare c, ∀ x, ∀ d ∈ nodeReports u x a,
      (e.withRules rules).isOn d = on a := by
    intro a ha x d hd
    obtain ⟨r, hrules, hr, hid⟩ := exists_rule_of_mem_prepare he ha
    have hrule : (e.withRules rules).rule? d.ruleId = some r := hid u x d hd ▸ hr
    simp only [isOn, on, hrule, hrules, List.any_cons, List.any_nil, Bool.or_false,
      Option.all_some]
  have hswap : (((e.prepare c).filter on).filter first).filter (·.analyzer.runsOn u)
      = (((e.prepare c).filter first).filter (·.analyzer.runsOn u)).filter on := by
    simp only [List.filter_filter, Bool.and_comm, Bool.and_left_comm, Bool.and_assoc]
  rw [unitReports_eq, unitReports_eq, List.filter_flatMap, prepare_withRules h, hswap]
  apply List.flatMap_congr
  intro x _
  have hmem : ∀ a ∈ ((e.prepare c).filter first).filter (·.analyzer.runsOn u), a ∈ e.prepare c :=
    fun a ha => (List.mem_filter.mp (List.mem_filter.mp ha).1).1
  have hoff : ∀ a ∈ ((e.prepare c).filter first).filter (·.analyzer.runsOn u),
      on a = true ∨ (nodeReports u x a).filter (e.withRules rules).isOn = [] := by
    intro a ha
    by_cases htrue : on a = true
    · exact .inl htrue
    · refine .inr (List.filter_eq_nil_iff.mpr fun d hd => ?_)
      rwa [hon a (hmem a ha) x d hd]
  rw [List.filter_flatMap, ← Element.flatMap_filter hoff]
  apply List.flatMap_congr
  intro a ha
  obtain ⟨ha, htrue⟩ := List.mem_filter.mp ha
  exact (List.filter_eq_self.mpr fun d hd => (hon a (hmem a ha) x d hd).trans htrue).symm

theorem pushes_withRules (he : e.analyzers = builtinAnalyzers) (hrunning : e.cancelled = false)
    (c : Compilation) :
    (e.withRules rules).pushes c = (e.pushes c).map (List.filter (e.withRules rules).isOn) := by
  have hunits : (e.withRules rules).unitsOf c = e.unitsOf c := rfl
  rw [(unstopped_withRules he hrunning c).pushes_eq, (unstopped_builtin he hrunning c).pushes_eq,
    passes_eq, passes_eq, List.map_map, hunits]
  exact List.map_congr_left fun u _ => unitReports_withRules h he _ u

theorem reports_laterEvents_withRules (he : e.analyzers = builtinAnalyzers) (c : Compilation) :
    ((e.withRules rules).laterEvents c).flatMap (·.reports)
      = ((e.laterEvents c).flatMap (·.reports)).filter (e.withRules rules).isOn := by
  have he' : (e.withRules rules).analyzers = builtinAnalyzers := he
  have hunits : (e.withRules rules).unitsOf c = e.unitsOf c := rfl
  rw [reports_laterEvents he', reports_laterEvents he, passes_eq, passes_eq, List.filter_flatMap,
    hunits]
  exact List.flatMap_congr fun u _ => unitReports_withRules h he _ u

/-- What is shown under the new settings: what is selected from all that was reported before. -/
theorem diagnostics_withRules_eq_finish (he : e.analyzers = builtinAnalyzers)
    (hrunning : e.cancelled = false) (c : Compilation) (sink : List Diagnostic) :
    ((e.withRules rules).analyzeScheduled c sink).diagnostics
      = (e.withRules rules).finish (sink ++ (e.laterEvents c).flatMap (·.reports)) := by
  rw [(unstopped_withRules he hrunning c).diagnostics_analyzeScheduled,
    reports_laterEvents_withRules h he, finish, finish, List.filterMap_append,
    List.filterMap_append, filterMap_filter_isOn]

end SwitchesOff

/-! ### Every schedule -/

/-- What `e` shows and what `e'` shows are related by `R`: when the units take their turns, and
under every schedule.  The schedules of `e'` are those of `e`, without what they push of rules that
are off for `e'`. -/
structure Follows (e e' : Engine) (c : Compilation)
    (R : List Diagnostic → List Diagnostic → Prop) : Prop where
  analyze : R (e.analyze c).diagnostics (e'.analyze c).diagnostics
  scheduled : ∀ sink, Interleaving (e.pushes c) sink →
    Interleaving (e'.pushes c) (sink.filter e'.isOn) ∧
      R (e.analyzeScheduled c sink).diagnostics
        (e'.analyzeScheduled c (sink.filter e'.isOn)).diagnostics
  exhausted : ∀ sink', Interleaving (e'.pushes c) sink' →
    ∃ sink, Interleaving (e.pushes c) sink ∧ sink.filter e'.isOn = sink'

/-- Settings that switch rules off are followed if what was pushed before is shown as it should
be. -/
theorem follows_withRules {R : List Diagnostic → List Diagnostic → Prop}
    (he : e.analyzers = builtinAnalyzers) (hrunning : e.cancelled = false)
    (h : e.SwitchesOff rules)
    (hR : ∀ sink, Interleaving (e.pushes c) sink → R (e.analyzeScheduled c sink).diagnostics
      ((e.withRules rules).analyzeScheduled c sink).diagnostics) :
    e.Follows (e.withRules rules) c R := by
  have hpushes := pushes_withRules h he hrunning c
  have hunstopped := unstopped_builtin he hrunning c
  have hunstopped' : (e.withRules rules).Unstopped c := unstopped_withRules he hrunning c
  refine ⟨?_, ?_, ?_⟩
  · rw [hunstopped.diagnostics_analyze, hunstopped'.diagnostics_analyze, hpushes,
      ← List.filter_flatten, diagnostics_filter_isOn hunstopped']
    exact hR _ (Interleaving.flatten _)
  · intro sink hsink
    rw [hpushes, diagnostics_filter_isOn hunstopped']
    exact ⟨hsink.filter _, hR sink hsink⟩
  · intro sink' hsink'
    rw [hpushes] at hsink'
    exact hsink'.exists_of_filter

/-- Narrower settings filter what is shown. -/
theorem follows_of_narrows (he : e.analyzers = builtinAnalyzers) (hrunning : e.cancelled = false)
    (h : Narrows keep e rules) (c : Compilation) {p : Diagnostic → Bool}
    (hp : ∀ d r, e.rule? d.ruleId = some r → r.id = d.ruleId →
      keep r d.location.file = p d) :
    e.Follows (e.withRules rules) c fun shown shown' => shown' = shown.filter p := by
  refine follows_withRules he hrunning h.isEnabled_of fun sink hsink => ?_
  have hkeeps : (e.analyzeScheduled c sink).diagnostics.filter (e.keeps keep)
      = (e.analyzeScheduled c sink).diagnostics.filter p := by
    apply List.filter_congr
    intro d hd
    obtain ⟨r, hr, hid⟩ := knows_of_mem_diagnostics he hrunning hsink hd
    rw [keeps, hr]
    exact hp d r hr hid
  rw [← hkeeps, diagnostics_withRules_eq_finish h.isEnabled_of he hrunning,
    (unstopped_builtin he hrunning c).diagnostics_analyzeScheduled, finish, finish,
    ← Diagnostic.sort_filter, List.filter_filterMap]
  congr 2
  funext d
  exact select?_withRules h d

/-! ### The switches -/

/-- Settings under which fewer rules are on, and which are the same for files. -/
theorem narrows_of_isEnabled_eq {q : Rule → Bool}
    (henabled : ∀ r, (e.withRules rules).config.isEnabled r = (e.config.isEnabled r && q r))
    (hperFile : rules.perFile = e.config.rules.perFile)
    (hseverity : rules.severity = e.config.rules.severity) :
    Narrows (fun r _ => q r) e rules where
  shows_eq r file := by
    have hignored : (e.withRules rules).config.ignoresInFile r file
        = e.config.ignoresInFile r file := by
      simp only [Config.ignoresInFile, withRules, hperFile]
    rw [Config.shows, henabled, hignored, Config.shows, Bool.and_right_comm]
  isEnabled_of r hr := by
    rw [henabled, Bool.and_eq_true] at hr
    exact hr.1
  severity_eq := hseverity

theorem narrows_withDisabled {p : String} {disabled : List String}
    (h : Adds p e.config.rules.disabled disabled) :
    Narrows (fun r _ => !r.matchesPattern p) e { e.config.rules with disabled } :=
  narrows_of_isEnabled_eq (Config.isEnabled_withDisabled h) rfl rfl

theorem narrows_withIgnore {p : String} {ignore : List String}
    (h : Adds p e.config.rules.ignore ignore) :
    Narrows (fun r _ => !(Text.upper p).toList.isPrefixOf (Text.upper r.id).toList) e
      { e.config.rules with ignore } :=
  narrows_of_isEnabled_eq (Config.isEnabled_withIgnore h) rfl rfl

theorem narrows_withPerFile {glob p : String} {perFile : Dict (List String)}
    (h : AddsUnder glob p e.config.rules.perFile perFile) :
    Narrows (fun r file => !(Config.globMatches glob file.text && r.matchesPattern p)) e
      { e.config.rules with perFile } := by
  have hignored : ∀ r file,
      (e.withRules { e.config.rules with perFile }).config.ignoresInFile r file
        = (Config.globMatches glob file.text && r.matchesPattern p
          || e.config.ignoresInFile r file) := Config.ignoresInFile_withPerFile h
  refine ⟨?_, fun r hr => hr, rfl⟩
  intro r file
  rw [Config.shows, hignored, Config.shows, Bool.not_or, Bool.and_comm (!_), ← Bool.and_assoc]
  rfl

/-! ### Severities -/

/-- Severities set in another way change the severities of what is selected, and nothing else. -/
theorem map_withoutSeverity_select? (severity : Dict Severity) (d : Diagnostic) :
    ((e.withRules { e.config.rules with severity }).select? d).map Diagnostic.withoutSeverity
      = (e.select? d).map Diagnostic.withoutSeverity := by
  have hrule : (e.withRules { e.config.rules with severity }).rule? d.ruleId
      = e.rule? d.ruleId := rfl
  rcases hr : e.rule? d.ruleId with - | r
  · rw [select?, select?, hrule, hr]
  · have hshows : (e.withRules { e.config.rules with severity }).config.shows r d.location.file
        = e.config.shows r d.location.file := rfl
    rw [select?_of_rule?_eq_some hr, select?_of_rule?_eq_some (hrule.trans hr), hshows]
    split <;> rfl

theorem forall₂_withSeverity (e : Engine) (c : Compilation) (severity : Dict Severity)
    (sink : List Diagnostic) :
    List.Forall₂ (fun d d' => ∃ s, d' = { d with severity := s })
      (e.analyzeScheduled c sink).diagnostics
      ((e.withRules { e.config.rules with severity }).analyzeScheduled c sink).diagnostics := by
  have hrun : (e.withRules { e.config.rules with severity }).runScheduled c sink
      = e.runScheduled c sink := rfl
  have hmap :
      ((e.withRules { e.config.rules with severity }).analyzeScheduled c sink).diagnostics.map
        Diagnostic.withoutSeverity
      = (e.analyzeScheduled c sink).diagnostics.map Diagnostic.withoutSeverity := by
    show (Diagnostic.sort _).map _ = (Diagnostic.sort _).map _
    rw [Diagnostic.map_withoutSeverity_sort, Diagnostic.map_withoutSeverity_sort,
      List.map_filterMap, List.map_filterMap, hrun]
    simp only [map_withoutSeverity_select?]
  apply Element.forall₂_of_map_eq hmap
  intro d _ d' _ heq
  exact ⟨d'.severity, Diagnostic.eq_of_withoutSeverity_eq heq⟩

/-! ### All switches -/

/-- **Settings of rules filter and relabel.**  With the built-in analyzers and no stop, every
diagnostic is of a rule that is known, and

* one more pattern among those that are disabled leaves out the diagnostics whose rule it selects;
* one more entry among those that are ignored leaves out those whose rule has an id that starts with
  it, in any letter case;
* one more pattern for the files that a glob matches leaves out those in such a file whose rule it
  selects, and none if the glob cannot be read;
* other severities change the severities.

What is not left out stays as it is and where it is, and all this under every schedule of the
concurrent pass, whether or not the units have different paths. -/
theorem diagnostics_withRules (he : e.analyzers = builtinAnalyzers)
    (hrunning : e.cancelled = false) (c : Compilation) :
    ((∀ d ∈ (e.analyze c).diagnostics, e.Knows d) ∧
      ∀ sink, Interleaving (e.pushes c) sink →
        ∀ d ∈ (e.analyzeScheduled c sink).diagnostics, e.Knows d) ∧
      (∀ p disabled, Adds p e.config.rules.disabled disabled →
        e.Follows (e.withRules { e.config.rules with disabled }) c fun shown shown' =>
          shown' = shown.filter fun d => !(e.rule? d.ruleId).any (·.matchesPattern p)) ∧
      (∀ p ignore, Adds p e.config.rules.ignore ignore →
        e.Follows (e.withRules { e.config.rules with ignore }) c fun shown shown' =>
          shown' = shown.filter fun d =>
            !(Text.upper p).toList.isPrefixOf (Text.upper d.ruleId).toList) ∧
      (∀ glob p perFile, AddsUnder glob p e.config.rules.perFile perFile →
        e.Follows (e.withRules { e.config.rules with perFile }) c fun shown shown' =>
          shown' = shown.filter fun d => !(Config.globMatches glob d.location.file.text
            && (e.rule? d.ruleId).any (·.matchesPattern p))) ∧
      ∀ severity, e.Follows (e.withRules { e.config.rules with severity }) c
        (List.Forall₂ fun d d' => ∃ s, d' = { d with severity := s }) := by
  refine ⟨⟨?_, fun sink hsink d => knows_of_mem_diagnostics he hrunning hsink⟩, ?_, ?_, ?_, ?_⟩
  · intro d hd
    rw [(unstopped_builtin he hrunning c).diagnostics_analyze] at hd
    exact knows_of_mem_diagnostics he hrunning (Interleaving.flatten _) hd
  · intro p disabled h
    refine follows_of_narrows he hrunning (narrows_withDisabled h) c ?_
    intro d r hr _
    rw [hr]
    rfl
  · intro p ignore h
    refine follows_of_narrows he hrunning (narrows_withIgnore h) c ?_
    intro d r _ hid
    rw [hid]
  · intro glob p perFile h
    refine follows_of_narrows he hrunning (narrows_withPerFile h) c ?_
    intro d r hr _
    rw [hr]
    rfl
  · intro severity
    exact follows_withRules he hrunning (fun _ hr => hr) fun sink _ =>
      e.forall₂_withSeverity c severity sink

/-- The rule of a diagnostic and its file. -/
def ruleAndFile (d : Diagnostic) : String × String := (d.ruleId, d.location.file.text)

theorem map_ruleAndFile_filter {ds : List Diagnostic} {ks : List (String × String)}
    (h : ds.map ruleAndFile = ks) {p : String × String → Bool} {q : Diagnostic → Bool}
    (hq : ∀ d, q d = p (ruleAndFile d)) : (ds.filter q).map ruleAndFile = ks.filter p := by
  rw [← h, List.filter_map]
  exact congrArg (fun q => (ds.filter q).map ruleAndFile) (funext hq)

/-- Of two classes that are reported, one is in a file where the rule is ignored. -/
theorem diagnostics_withRules_overridingClasses :
    let other : NodeMap := ⟨[(2, 4), (3, 6)], by simp⟩
    let unconfigured : Engine := ⟨{}, builtinAnalyzers, [], false⟩
    let shown (rules : RuleSettings) : List (String × String) :=
      ((unconfigured.withRules rules).analyze (overridingClasses other)).diagnostics.map ruleAndFile
    shown {} = [("SC0001", "a.cs"), ("SC0001", "b.cs")] ∧ shown { ignore := ["sc"] } = [] ∧
      shown { perFile := .single "a.*" ["all"] } = [("SC0001", "b.cs")] := by
  intro other unconfigured shown
  have hshown : (unconfigured.analyze (overridingClasses other)).diagnostics.map ruleAndFile
      = [("SC0001", "a.cs"), ("SC0001", "b.cs")] := by
    rw [diagnostics_analyze_eq_insertionSort]
    decide +kernel
  obtain ⟨-, -, hignore, hperFile, -⟩ :=
    @diagnostics_withRules unconfigured rfl rfl (overridingClasses other)
  refine ⟨hshown, ?_, ?_⟩
  · have hadds : Adds "sc" [] ["sc"] := fun q => by simp
    have hkeys := map_ruleAndFile_filter hshown
      (p := fun k => !(Text.upper "sc").toList.isPrefixOf (Text.upper k.1).toList) fun _ => rfl
    refine (congrArg (List.map ruleAndFile) (hignore _ _ hadds).analyze).trans (hkeys.trans ?_)
    decide +kernel
  · have hadds : AddsUnder "a.*" "all" {} (.single "a.*" ["all"]) := fun k q => by
      simp [Dict.single]
    have hkeys := map_ruleAndFile_filter hshown
      (p := fun k : String × String => !(Config.globMatches "a.*" k.2
        && (unconfigured.rule? k.1).any (·.matchesPattern "all"))) fun _ => rfl
    refine (congrArg (List.map ruleAndFile) (hperFile _ _ _ hadds).analyze).trans (hkeys.trans ?_)
    decide +kernel

end Engine

end TreeLint
