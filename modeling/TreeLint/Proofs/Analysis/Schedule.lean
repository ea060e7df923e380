/-
TreeLint/Proofs/Analysis/Schedule.lean

Analyses do not depend on the schedule.

In the concurrent pass every unit is walked on its own, and the units push what
they report into one sink.  The order within a unit is kept, everything else is
left to the schedule, so the sink ends up with some *interleaving* of what the
units report.  Counters are kept by unit and added up at the end.

Sorting hides the schedule.  Level diagnostics are in one file, hence from one
unit, and of one rule, hence from one analyzer; an interleaving keeps the order
within a unit, and an analyzer is in one of the two passes only.  So whatever
the schedule, the lists of level diagnostics are those of a sequential run
(`Engine.Orderly.filter_level_sink`), and the sort is stable.

Where units may share a path, the schedule is visible.  But an analysis that is
not stopped reports what the sink holds, and then what comes later
(`Engine.Unstopped.reported_runScheduled`), and to take turns is one of the
schedules (`Engine.Unstopped.diagnostics_analyze`).
-/
import TreeLint.Proofs.Analysis.Runs
import TreeLint.Proofs.Diagnostic
import Mathlib.Data.List.Perm.Basic

namespace TreeLint

/-! ### Interleavings -/

/-- The list takes the elements of all the lists, those of each list in their order. -/
inductive Interleaving {α : Type} : List (List α) → List α → Prop
  | done {ls : List (List α)} : (∀ l ∈ ls, l = []) → Interleaving ls []
  | push {pre post : List (List α)} {l rest : List α} {a : α} :
      Interleaving (pre ++ l :: post) rest → Interleaving (pre ++ (a :: l) :: post) (a :: rest)

namespace Interleaving

variable {α : Type} {ls : List (List α)} {l : List α}

/-- One list after the other is an interleaving. -/
theorem flatten (ls : List (List α)) : Interleaving ls ls.flatten := by
  have key : ∀ pre ls : List (List α), (∀ l ∈ pre, l = []) →
      Interleaving (pre ++ ls) ls.flatten := by
    intro pre ls
    induction ls generalizing pre with
    | nil =>
      intro hpre
      refine .done ?_
      rwa [List.append_nil]
    | cons l ls ih =>
      intro hpre
      induction l with
      | nil =>
        have hnil := ih (pre ++ [[]]) fun l hl => by
          rcases List.mem_append.mp hl with hl | hl
          · exact hpre l hl
          · exact List.mem_singleton.mp hl
        rwa [List.append_assoc, List.singleton_append] at hnil
      | cons a l ihl => exact .push ihl
  exact key [] ls fun l hl => by cases hl

theorem filter (p : α → Bool) (h : Interleaving ls l) :
    Interleaving (ls.map (List.filter p)) (l.filter p) := by
  induction h with
  | done h =>
    refine .done ?_
    intro l hl
    obtain ⟨m, hm, rfl⟩ := List.mem_map.mp hl
    rw [h m hm, List.filter_nil]
  | @push pre post l rest a _ ih =>
    rw [List.map_append, List.map_cons] at ih ⊢
    by_cases ha : p a = true
    · rw [List.filter_cons_of_pos ha, List.filter_cons_of_pos ha]
      exact .push ih
    · rw [List.filter_cons_of_neg ha, List.filter_cons_of_neg ha]
      exact ih

/-- One of the lists may push several elements at once. -/
theorem push_append {pre post : List (List α)} {m : List α} (xs : List α)
    (h : Interleaving (pre ++ m :: post) l) :
    Interleaving (pre ++ (xs ++ m) :: post) (xs ++ l) := by
  induction xs with
  | nil => exact h
  | cons x xs ih => exact .push ih

/-- Each interleaving of the filtered lists is what is left of one of the lists. -/
theorem exists_of_filter {p : α → Bool} (h : Interleaving (ls.map (List.filter p)) l) :
    ∃ l', Interleaving ls l' ∧ l'.filter p = l := by
  generalize hfiltered : ls.map (List.filter p) = filtered at h
  induction h generalizing ls with
  | done h =>
    refine ⟨ls.flatten, flatten ls, ?_⟩
    rw [List.filter_flatten, hfiltered, List.flatten_eq_nil_iff.mpr h]
  | @push pre post l rest a _ ih =>
    obtain ⟨pre', tail', rfl, rfl, htail⟩ := List.map_eq_append_iff.mp hfiltered
    obtain ⟨m, post', rfl, hm, rfl⟩ := List.map_eq_cons_iff.mp htail
    -- the list first pushes what is left out, then the element
    obtain ⟨out, m', rfl, hout, ha, rfl⟩ := List.filter_eq_cons_iff.mp hm
    have hmap : (pre' ++ m' :: post').map (List.filter p) =
        pre'.map (List.filter p) ++ m'.filter p :: post'.map (List.filter p) := by
      rw [List.map_append, List.map_cons]
    obtain ⟨l', hl', hrest⟩ := ih hmap
    refine ⟨out ++ a :: l', push_append out (.push hl'), ?_⟩
    rw [List.filter_append, List.filter_eq_nil_iff.mpr hout, List.nil_append,
      List.filter_cons_of_pos ha, hrest]

/-- Where no two lists have elements, there is nothing to interleave. -/
theorem eq_flatten (h : Interleaving ls l) (hls : ls.Pairwise fun l m => l = [] ∨ m = []) :
    l = ls.flatten := by
  induction h with
  | done h => exact (List.flatten_eq_nil_iff.mpr h).symm
  | @push pre post l rest a _ ih =>
    rw [List.pairwise_append, List.pairwise_cons] at hls
    obtain ⟨hpre, ⟨hl, hpost⟩, hdisjoint⟩ := hls
    -- the list that has an element is the only one
    have hpre' : ∀ m ∈ pre, m = [] := by
      intro m hm
      rcases hdisjoint m hm (a :: l) List.mem_cons_self with h | h
      · exact h
      · cases h
    have hpost' : ∀ m ∈ post, m = [] := by
      intro m hm
      rcases hl m hm with h | h
      · cases h
      · exact h
    have hrest : rest = (pre ++ l :: post).flatten := by
      apply ih
      rw [List.pairwise_append, List.pairwise_cons]
      refine ⟨hpre, ⟨fun m hm => .inr (hpost' m hm), hpost⟩, fun m hm n _ => .inl (hpre' m hm)⟩
    rw [hrest, List.flatten_append, List.flatten_append, List.flatten_eq_nil_iff.mpr hpre']
    rfl

/-- An interleaving has the elements of all the lists, each as often as they have it. -/
theorem perm_flatten (h : Interleaving ls l) : l.Perm ls.flatten := by
  induction h with
  | done h => rw [List.flatten_eq_nil_iff.mpr h]
  | @push pre post l rest a _ ih =>
    rw [List.flatten_append, List.flatten_cons] at ih ⊢
    exact (ih.cons a).trans List.perm_middle.symm

/-- What holds within each list one way, and between two lists both ways, holds all through. -/
theorem pairwise {R : α → α → Prop} (h : Interleaving ls l) (hwithin : ∀ l ∈ ls, l.Pairwise R)
    (hbetween : ls.Pairwise fun l m => ∀ x ∈ l, ∀ y ∈ m, R x y ∧ R y x) : l.Pairwise R := by
  induction h with
  | done => exact .nil
  | @push pre post l rest a hrest ih =>
    have hl := List.pairwise_cons.mp (hwithin (a :: l) (by simp))
    rw [List.pairwise_append, List.pairwise_cons] at hbetween
    obtain ⟨hpre, ⟨hlpost, hpost⟩, hacross⟩ := hbetween
    refine List.pairwise_cons.mpr ⟨?_, ih ?_ ?_⟩
    · -- what comes later is from the same list or from another one
      intro y hy
      obtain ⟨m, hm, hym⟩ := List.mem_flatten.mp (hrest.perm_flatten.mem_iff.mp hy)
      rcases List.mem_append.mp hm with hm | hm
      · exact (hacross m hm (a :: l) List.mem_cons_self y hym a List.mem_cons_self).2
      · rcases List.mem_cons.mp hm with rfl | hm
        · exact hl.1 y hym
        · exact (hlpost m hm a List.mem_cons_self y hym).1
    · intro m hm
      rcases List.mem_append.mp hm with hm | hm
      · exact hwithin m (List.mem_append_left _ hm)
      · rcases List.mem_cons.mp hm with rfl | hm
        · exact hl.2
        · exact hwithin m (List.mem_append_right _ (List.mem_cons_of_mem _ hm))
    · rw [List.pairwise_append, List.pairwise_cons]
      refine ⟨hpre, ⟨fun m hm x hx => hlpost m hm x (List.mem_cons_of_mem a hx), hpost⟩, ?_⟩
      intro m hm m' hm' x hx y hy
      rcases List.mem_cons.mp hm' with rfl | hm'
      · exact hacross m hm _ List.mem_cons_self x hx y (List.mem_cons_of_mem a hy)
      · exact hacross m hm m' (List.mem_cons_of_mem _ hm') x hx y hy

end Interleaving

namespace Engine

/-! ### Schedules -/

/-- The analyzers that may run concurrently, and the others. -/
def passes (e : Engine) (c : Compilation) : List Prepared × List Prepared :=
  (e.prepare c).partition fun a => a.analyzer.concurrent && e.config.engine.parallel

/-- How far a unit gets on its own in the concurrent pass. -/
def unitPass (e : Engine) (c : Compilation) (u : AnalysisUnit) : Progress :=
  runUnit (e.passes c).1 { cancelled := e.cancelled } u

/-- What each unit pushes into the sink in the concurrent pass. -/
def pushes (e : Engine) (c : Compilation) : List (List Diagnostic) :=
  (e.unitsOf c).map fun u => (e.unitPass c u).reported

/-- The analysis under a schedule that has the reports of the concurrent pass come in as `sink`. -/
def runScheduled (e : Engine) (c : Compilation) (sink : List Diagnostic) : Progress :=
  let units := e.unitsOf c
  let p : Progress :=
    { reported := sink
      invocations := units.foldl (fun d u => d.add (e.unitPass c u).invocations) {}
      cancelled := e.cancelled || units.any fun u => (e.unitPass c u).cancelled }
  let p := units.foldl (runUnit (e.passes c).2) p
  (e.prepare c).foldl (runSymbols c units) p

/-- The report on the analysis under a schedule. -/
def analyzeScheduled (e : Engine) (c : Compilation) (sink : List Diagnostic) : Report :=
  e.report c (e.runScheduled c sink)

/-- The engine with the concurrent pass switched off. -/
def sequential (e : Engine) : Engine :=
  { e with config := { e.config with engine := { e.config.engine with parallel := false } } }

end Engine

/-- What is expected of an analyzer: none of its actions asks for a stop, and its node actions
report diagnostics of its own rules on the unit they look at. -/
structure Analyzer.Regular (a : Analyzer) (c : Compilation) : Prop where
  quietOnNode : ∀ k action, (k, action) ∈ (a.actionsFor c).onNode →
    ∀ ctx, (action ctx).cancel = false
  quietOnSymbol : ∀ k action, (k, action) ∈ (a.actionsFor c).onSymbol →
    ∀ ctx, (action ctx).cancel = false
  ownReports : ∀ k action, (k, action) ∈ (a.actionsFor c).onNode → ∀ ctx,
    ∀ d ∈ (action ctx).reports, ∃ r ∈ a.rules, ∃ span payload args,
      d = ctx.unit.diagnostic r span payload args

namespace Engine

/-! ### Who reports what -/

/-- What a pass over a unit reports. -/
def unitReports (analyzers : List Prepared) (u : AnalysisUnit) : List Diagnostic :=
  (unitEvents analyzers u).flatMap (·.reports)

/-- The reports of an analyzer are on the unit at hand and of its own rules. -/
def Prepared.ReportsOwn (a : Prepared) : Prop :=
  ∀ u e, ∀ ev ∈ nodeEvents u e a, ∀ d ∈ ev.reports,
    d.location.file = u.path ∧ ∃ r ∈ a.analyzer.rules, d.ruleId = r.id

/-- Whether an analyzer can report a rule. -/
def Prepared.owns (ruleId : String) (a : Prepared) : Bool :=
  a.analyzer.rules.any (·.id == ruleId)

variable {e : Engine} {c : Compilation} {analyzers : List Prepared} {d : Diagnostic}

theorem quiet_of_regular {a : Prepared} (hactions : a.actions = a.analyzer.actionsFor c)
    (h : a.analyzer.Regular c) : a.Quiet where
  onNode := by rw [hactions]; exact h.quietOnNode
  onSymbol := by rw [hactions]; exact h.quietOnSymbol

theorem reportsOwn_of_regular {a : Prepared} (hactions : a.actions = a.analyzer.actionsFor c)
    (h : a.analyzer.Regular c) : a.ReportsOwn := by
  intro u e ev hev d hd
  obtain ⟨action, haction, rfl⟩ := List.mem_map.mp hev
  have hmem := mem_forNode haction
  rw [hactions] at hmem
  split at hd
  · obtain ⟨r, hr, span, payload, args, rfl⟩ := h.ownReports _ _ hmem _ d hd
    exact ⟨rfl, r, hr, rfl⟩
  · cases hd

/-- A pass over a unit reports nothing level with a diagnostic on another file. -/
theorem filter_unitReports_eq_nil (h : ∀ a ∈ analyzers, a.ReportsOwn) {u : AnalysisUnit}
    (hd : d.location.file.same u.path = false) : (unitReports analyzers u).filter d.level = [] := by
  rw [List.filter_eq_nil_iff]
  intro d' hd' hlevel
  obtain ⟨ev, hev, hd'⟩ := List.mem_flatMap.mp hd'
  obtain ⟨e, -, hev⟩ := List.mem_flatMap.mp hev
  obtain ⟨a, ha, hev⟩ := List.mem_flatMap.mp hev
  have hfile := (h a (List.mem_filter.mp ha).1 u e ev hev d' hd').1
  have hsame := (Diagnostic.level_iff.mp hlevel).1
  rw [hfile, hd] at hsame
  cases hsame

/-- What an analyzer reports on an element. -/
def nodeReports (u : AnalysisUnit) (e : Element) (a : Prepared) : List Diagnostic :=
  (nodeEvents u e a).flatMap (·.reports)

theorem unitReports_eq (analyzers : List Prepared) (u : AnalysisUnit) :
    unitReports analyzers u = u.tree.top.preorder.flatMap fun e =>
      (analyzers.filter (·.analyzer.runsOn u)).flatMap (nodeReports u e) := by
  simp only [unitReports, unitEvents, List.flatMap_assoc]
  rfl

/-- An analyzer reports nothing level with a diagnostic of another's rule. -/
theorem filter_nodeReports_eq_nil {a : Prepared} (h : a.ReportsOwn) (u : AnalysisUnit)
    (e : Element) (hd : a.owns d.ruleId = false) : (nodeReports u e a).filter d.level = [] := by
  rw [List.filter_eq_nil_iff]
  intro d' hd' hlevel
  obtain ⟨ev, hev, hd'⟩ := List.mem_flatMap.mp hd'
  obtain ⟨r, hr, hid⟩ := (h u e ev hev d' hd').2
  rw [Prepared.owns, List.any_eq_false] at hd
  apply hd r hr
  rw [beq_iff_eq, ← hid, (Diagnostic.level_iff.mp hlevel).2.2]

/-- What of the yield of selected elements satisfies `p` comes from those that can yield such. -/
theorem filter_flatMap_filter {α β : Type} {f : α → List β} {p : β → Bool} {q : α → Bool}
    (r : α → Bool) {xs : List α} (h : ∀ x ∈ xs, q x = false → (f x).filter p = []) :
    ((xs.filter r).flatMap f).filter p = (((xs.filter q).filter r).flatMap f).filter p := by
  induction xs with
  | nil => rfl
  | cons x xs ih =>
    have ih := ih fun y hy => h y (List.mem_cons_of_mem x hy)
    by_cases hq : q x = true
    · rw [List.filter_cons_of_pos hq]
      by_cases hr : r x = true
      · rw [List.filter_cons_of_pos hr, List.filter_cons_of_pos hr, List.flatMap_cons,
          List.flatMap_cons, List.filter_append, List.filter_append, ih]
      · rw [List.filter_cons_of_neg hr, List.filter_cons_of_neg hr, ih]
    · have hnil := h x List.mem_cons_self (eq_false_of_ne_true hq)
      rw [List.filter_cons_of_neg hq]
      by_cases hr : r x = true
      · rw [List.filter_cons_of_pos hr, List.flatMap_cons, List.filter_append, hnil, ih]
        rfl
      · rw [List.filter_cons_of_neg hr, ih]

/-- What is level with a diagnostic comes from the analyzers that can report its rule. -/
theorem filter_unitReports (h : ∀ a ∈ analyzers, a.ReportsOwn) (u : AnalysisUnit) :
    (unitReports analyzers u).filter d.level
      = (unitReports (analyzers.filter (·.owns d.ruleId)) u).filter d.level := by
  rw [unitReports_eq, unitReports_eq, List.filter_flatMap, List.filter_flatMap]
  apply List.flatMap_congr
  intro e _
  apply filter_flatMap_filter
  intro a ha howns
  exact filter_nodeReports_eq_nil (h a ha) u e howns

/-- A rule belongs to one analyzer at most. -/
theorem filter_owns_eq (ruleId : String)
    (h : analyzers.Pairwise fun a b =>
      ∀ r ∈ a.analyzer.rules, ∀ s ∈ b.analyzer.rules, r.id ≠ s.id) :
    analyzers.filter (·.owns ruleId) = [] ∨ ∃ a, analyzers.filter (·.owns ruleId) = [a] := by
  induction analyzers with
  | nil => exact .inl rfl
  | cons a analyzers ih =>
    obtain ⟨ha, hrest⟩ := List.pairwise_cons.mp h
    by_cases howns : a.owns ruleId = true
    · refine .inr ⟨a, ?_⟩
      rw [List.filter_cons_of_pos howns, List.filter_eq_nil_iff.mpr]
      intro b hb hbowns
      obtain ⟨r, hr, hrid⟩ := List.any_eq_true.mp howns
      obtain ⟨s, hs, hsid⟩ := List.any_eq_true.mp hbowns
      exact ha b hb r hr s hs ((beq_iff_eq.mp hrid).trans (beq_iff_eq.mp hsid).symm)
    · rw [List.filter_cons_of_neg howns]
      exact ih hrest

/-- Splitting the analyzers into two passes does not change the order of level diagnostics. -/
theorem filter_passes (hown : ∀ a ∈ analyzers, a.ReportsOwn)
    (h : analyzers.Pairwise fun a b => ∀ r ∈ a.analyzer.rules, ∀ s ∈ b.analyzer.rules, r.id ≠ s.id)
    (first : Prepared → Bool) (units : List AnalysisUnit) :
    (units.flatMap fun u => (unitReports (analyzers.filter first) u).filter d.level)
        ++ (units.flatMap fun u => (unitReports (analyzers.filter (!first ·)) u).filter d.level)
      = units.flatMap fun u => (unitReports analyzers u).filter d.level := by
  -- what is level with `d` comes from the analyzer of its rule
  have hsub : ∀ (p : Prepared → Bool) (u : AnalysisUnit),
      (unitReports (analyzers.filter p) u).filter d.level
        = (unitReports ((analyzers.filter (·.owns d.ruleId)).filter p) u).filter d.level := by
    intro p u
    rw [filter_unitReports fun a ha => hown a (List.mem_filter.mp ha).1, List.filter_filter,
      List.filter_filter]
    simp only [Bool.and_comm]
  have hall : (fun u => (unitReports analyzers u).filter d.level)
      = fun u => (unitReports (analyzers.filter (·.owns d.ruleId)) u).filter d.level :=
    funext fun u => filter_unitReports hown u
  have hnil : ∀ u, unitReports [] u = [] := by
    intro u
    rw [unitReports_eq]
    exact List.flatMap_eq_nil_iff.mpr fun _ _ => rfl
  have hnone : (units.flatMap fun _ => ([] : List Diagnostic)) = [] :=
    List.flatMap_eq_nil_iff.mpr fun _ _ => rfl
  simp only [hsub]
  rw [hall]
  -- there is at most one, and it is in one of the passes
  rcases filter_owns_eq d.ruleId h with hempty | ⟨a, ha⟩
  · simp [hempty, hnil, hnone]
  · rw [ha]
    cases hfirst : first a <;> simp [hfirst, hnil, hnone]

/-! ### Runs -/

theorem passes_eq (e : Engine) (c : Compilation) :
    e.passes c = ((e.prepare c).filter (fun a => a.analyzer.concurrent && e.config.engine.parallel),
      (e.prepare c).filter fun a => !(a.analyzer.concurrent && e.config.engine.parallel)) :=
  List.partition_eq_filter_filter

theorem passes_subset (e : Engine) (c : Compilation) :
    (e.passes c).1 ⊆ e.prepare c ∧ (e.passes c).2 ⊆ e.prepare c := by
  rw [passes_eq]
  exact ⟨List.filter_subset_self _, List.filter_subset_self _⟩

/-- Both passes together run the actions that one pass of all analyzers runs. -/
theorem perm_passes (e : Engine) (c : Compilation) :
    ((e.unitsOf c).flatMap (unitEvents (e.passes c).1)
      ++ (e.unitsOf c).flatMap (unitEvents (e.passes c).2)).Perm
      ((e.unitsOf c).flatMap (unitEvents (e.prepare c))) := by
  refine (List.flatMap_append_perm _ _ _).trans (List.Perm.flatMap_left _ ?_)
  intro u _
  refine (List.flatMap_append_perm _ _ _).trans (List.Perm.flatMap_left _ ?_)
  intro x _
  rw [← List.flatMap_append, ← List.filter_append, passes_eq]
  exact ((List.filter_append_perm _ _).filter _).flatMap_right _

/-- All that an analysis comes to when the analyzers make one pass together. -/
def allEvents (e : Engine) (c : Compilation) : List Event :=
  (e.unitsOf c).flatMap (unitEvents (e.prepare c))
    ++ (e.prepare c).flatMap (symbolPass c (e.unitsOf c))

/-- Settings change neither the place nor the rule of a diagnostic. -/
theorem level_of_select? {d' d'' : Diagnostic} (h : e.select? d' = some d'') :
    d.level d'' = d.level d' := by
  rw [select?] at h
  split at h
  · rw [Option.some.inj h]
  · split at h
    · cases h
    · rw [← Option.some.inj h]
      rfl

theorem filter_filterMap_select? (ds : List Diagnostic) :
    (ds.filterMap e.select?).filter d.level = (ds.filter d.level).filterMap e.select? := by
  induction ds with
  | nil => rfl
  | cons d' ds ih =>
    rcases hselect : e.select? d' with - | d''
    · rw [List.filterMap_cons_none hselect, ih, List.filter_cons]
      split
      · rw [List.filterMap_cons_none hselect]
      · rfl
    · rw [List.filterMap_cons_some hselect, List.filter_cons, List.filter_cons,
        level_of_select? hselect, ih]
      split
      · rw [List.filterMap_cons_some hselect]
      · rfl

/-- Reports that agree on all diagnostics level with each other are shown as the same list. -/
theorem finish_eq_of_filter_eq {ds ds' : List Diagnostic}
    (h : ∀ d : Diagnostic, ds.filter d.level = ds'.filter d.level) :
    e.finish ds = e.finish ds' := by
  apply Diagnostic.sort_eq_of_filter_eq
  intro d
  rw [filter_filterMap_select?, filter_filterMap_select?, h]

/-! ### Analyses that are not stopped -/

/-- What is run after the concurrent pass. -/
def laterEvents (e : Engine) (c : Compilation) : List Event :=
  (e.unitsOf c).flatMap (unitEvents (e.passes c).2)
    ++ (e.prepare c).flatMap (symbolPass c (e.unitsOf c))

/-- No stop was requested, and no analyzer that takes part asks for one. -/
structure Unstopped (e : Engine) (c : Compilation) : Prop where
  quiet : ∀ a ∈ e.prepare c, a.Quiet
  running : e.cancelled = false

namespace Unstopped

variable (h : e.Unstopped c)
include h

theorem quiet_concurrent : ∀ a ∈ (e.passes c).1, a.Quiet :=
  fun a ha => h.quiet a ((e.passes_subset c).1 ha)

theorem quiet_sequential : ∀ a ∈ (e.passes c).2, a.Quiet :=
  fun a ha => h.quiet a ((e.passes_subset c).2 ha)

/-- A unit on its own in the concurrent pass. -/
theorem unitPass_eq (u : AnalysisUnit) :
    e.unitPass c u = ({} : Progress).afterAll (unitEvents (e.passes c).1 u) := by
  rw [unitPass, h.running]
  exact runUnit_eq h.quiet_concurrent u rfl

theorem pushes_eq : e.pushes c = (e.unitsOf c).map (unitReports (e.passes c).1) := by
  apply List.map_congr_left
  intro u _
  rw [h.unitPass_eq, Progress.reported_afterAll]
  rfl

/-- The rest of an analysis after the concurrent pass. -/
theorem foldl_eq {p : Progress} (hp : p.cancelled = false) :
    (e.prepare c).foldl (runSymbols c (e.unitsOf c))
        ((e.unitsOf c).foldl (runUnit (e.passes c).2) p)
      = p.afterAll (e.laterEvents c) := by
  have hunits : (e.unitsOf c).foldl (runUnit (e.passes c).2) p
      = p.afterAll ((e.unitsOf c).flatMap (unitEvents (e.passes c).2)) := by
    apply foldl_eq_afterAll _ hp
    intro u _ p hp
    exact runUnit_eq h.quiet_sequential u hp
  rw [hunits, laterEvents, Progress.afterAll_append]
  apply foldl_eq_afterAll
  · intro a ha p hp
    exact runSymbols_eq (h.quiet a ha) c _ hp
  · rw [Progress.cancelled_afterAll, hp]

/-- The counters of the concurrent pass, kept by unit and then added up. -/
theorem get?_foldl_add (units : List AnalysisUnit) (counts : Dict Nat) (name : String) :
    (units.foldl (fun d u => d.add (e.unitPass c u).invocations) counts).get? name
      = Dict.raise (counts.get? name)
          ((units.flatMap (unitEvents (e.passes c).1)).countP (·.analyzer == name)) := by
  apply Dict.get?_foldl_add
  intro u _
  rw [h.unitPass_eq, Progress.get?_invocations_afterAll]
  rfl

/-- The analysis under a schedule is what comes later, once the concurrent pass has come to `p`. -/
theorem exists_runScheduled_eq (sink : List Diagnostic) :
    ∃ p : Progress, p.cancelled = false ∧ p.reported = sink ∧
      (∀ name, p.invocations.get? name = Dict.raise none
        (((e.unitsOf c).flatMap (unitEvents (e.passes c).1)).countP (·.analyzer == name))) ∧
      e.runScheduled c sink = p.afterAll (e.laterEvents c) := by
  have hunits : ((e.unitsOf c).any fun u => (e.unitPass c u).cancelled) = false := by
    rw [List.any_eq_false]
    intro u _
    rw [h.unitPass_eq, Progress.cancelled_afterAll]
    exact Bool.false_ne_true
  refine ⟨_, ?_, ?_, ?_, h.foldl_eq ?_⟩
  · rw [h.running, hunits]
    rfl
  · rfl
  · exact h.get?_foldl_add _ {}
  · rw [h.running, hunits]
    rfl

/-- The analysis as it is run is what comes later, once the units have taken their turns. -/
theorem exists_run_eq :
    ∃ p : Progress, p.cancelled = false ∧ p.reported = (e.pushes c).flatten ∧
      (∀ name, p.invocations.get? name = Dict.raise none
        (((e.unitsOf c).flatMap (unitEvents (e.passes c).1)).countP (·.analyzer == name))) ∧
      e.run c = p.afterAll (e.laterEvents c) := by
  have hconcurrent : (e.unitsOf c).foldl (runUnit (e.passes c).1) { cancelled := e.cancelled }
      = ({} : Progress).afterAll ((e.unitsOf c).flatMap (unitEvents (e.passes c).1)) := by
    rw [h.running]
    apply foldl_eq_afterAll _ rfl
    intro u _ p hp
    exact runUnit_eq h.quiet_concurrent u hp
  have hrun : e.run c = (({} : Progress).afterAll
      ((e.unitsOf c).flatMap (unitEvents (e.passes c).1))).afterAll (e.laterEvents c) := by
    rw [← h.foldl_eq (Progress.cancelled_afterAll _ _), ← hconcurrent]
    rfl
  refine ⟨_, Progress.cancelled_afterAll _ _, ?_, ?_, hrun⟩
  · rw [Progress.reported_afterAll, List.flatMap_assoc, h.pushes_eq, ← List.flatMap_def]
    rfl
  · intro name
    rw [Progress.get?_invocations_afterAll]
    rfl

theorem reported_runScheduled (sink : List Diagnostic) :
    (e.runScheduled c sink).reported = sink ++ (e.laterEvents c).flatMap (·.reports) := by
  obtain ⟨p, -, rfl, -, hrun⟩ := h.exists_runScheduled_eq sink
  rw [hrun, Progress.reported_afterAll]

theorem reported_run :
    (e.run c).reported = (e.pushes c).flatten ++ (e.laterEvents c).flatMap (·.reports) := by
  obtain ⟨p, -, hp, -, hrun⟩ := h.exists_run_eq
  rw [hrun, Progress.reported_afterAll, hp]

theorem diagnostics_analyzeScheduled (sink : List Diagnostic) :
    (e.analyzeScheduled c sink).diagnostics
      = e.finish (sink ++ (e.laterEvents c).flatMap (·.reports)) :=
  congrArg e.finish (h.reported_runScheduled sink)

/-- Taking turns is one of the schedules. -/
theorem diagnostics_analyze :
    (e.analyze c).diagnostics = (e.analyzeScheduled c (e.pushes c).flatten).diagnostics := by
  rw [h.diagnostics_analyzeScheduled, ← h.reported_run]
  rfl

end Unstopped

/-! ### Units and rules that can be told apart -/

/-- What is assumed of a compilation and of the analyzers of an engine: units have different paths,
a rule belongs to one analyzer only, and analyzers are regular. -/
structure Orderly (e : Engine) (c : Compilation) : Prop where
  paths : c.units.Pairwise fun u v => u.path.same v.path = false
  rules : e.analyzers.Pairwise fun a b => ∀ r ∈ a.rules, ∀ s ∈ b.rules, r.id ≠ s.id
  regular : ∀ a ∈ e.analyzers, a.Regular c
  running : e.cancelled = false

namespace Orderly

variable (h : e.Orderly c)
include h

theorem unstopped : e.Unstopped c := by
  refine ⟨fun a ha => ?_, h.running⟩
  obtain ⟨hmem, hactions⟩ := exists_of_mem_prepare ha
  exact quiet_of_regular hactions (h.regular _ hmem)

theorem reportsOwn {a : Prepared} (ha : a ∈ e.prepare c) : a.ReportsOwn := by
  obtain ⟨hmem, hactions⟩ := exists_of_mem_prepare ha
  exact reportsOwn_of_regular hactions (h.regular _ hmem)

theorem pairwise_prepare : (e.prepare c).Pairwise fun a b =>
    ∀ r ∈ a.analyzer.rules, ∀ s ∈ b.analyzer.rules, r.id ≠ s.id := by
  rw [prepare, List.pairwise_map]
  exact h.rules.filter _

theorem pairwise_unitsOf :
    (e.unitsOf c).Pairwise fun u v => u.path.same v.path = false := by
  rw [unitsOf, List.pairwise_map]
  exact h.paths

/-- The reports of the concurrent pass that are level with a diagnostic, whatever the schedule. -/
theorem filter_level_sink {sink : List Diagnostic} (hsink : Interleaving (e.pushes c) sink)
    (d : Diagnostic) :
    sink.filter d.level
      = (e.unitsOf c).flatMap fun u => (unitReports (e.passes c).1 u).filter d.level := by
  have hown : ∀ a ∈ (e.passes c).1, a.ReportsOwn :=
    fun a ha => h.reportsOwn ((e.passes_subset c).1 ha)
  have hfilter := hsink.filter d.level
  rw [h.unstopped.pushes_eq, List.map_map] at hfilter
  have hflatten := hfilter.eq_flatten (by
    rw [List.pairwise_map]
    refine h.pairwise_unitsOf.imp ?_
    intro u v huv
    -- a diagnostic is on the file of one of the two units at most
    by_cases hu : d.location.file.same u.path = true
    · refine .inr (filter_unitReports_eq_nil hown ?_)
      by_contra hv
      rw [Bool.not_eq_false, Path.same_iff] at hv
      rw [Path.same_iff] at hu
      rw [← Bool.not_eq_true, Path.same_iff] at huv
      exact huv (hu.symm.trans hv)
    · exact .inl (filter_unitReports_eq_nil hown (eq_false_of_ne_true hu)))
  rw [hflatten, ← List.flatMap_def]
  rfl

/-- The diagnostics that are shown, once the concurrent pass has come to `p`. -/
theorem finish_reported {p : Progress} (hsink : Interleaving (e.pushes c) p.reported) :
    e.finish (p.afterAll (e.laterEvents c)).reported
      = e.finish ((e.allEvents c).flatMap (·.reports)) := by
  apply finish_eq_of_filter_eq
  intro d
  have hpasses := filter_passes (d := d) (fun a ha => h.reportsOwn ha) h.pairwise_prepare
    (fun a => a.analyzer.concurrent && e.config.engine.parallel) (e.unitsOf c)
  have hunits : ∀ analyzers,
      (((e.unitsOf c).flatMap (unitEvents analyzers)).flatMap (·.reports)).filter d.level
        = (e.unitsOf c).flatMap fun u => (unitReports analyzers u).filter d.level := by
    intro analyzers
    rw [List.flatMap_assoc, List.filter_flatMap]
    rfl
  rw [Progress.reported_afterAll, allEvents, laterEvents, List.flatMap_append,
    List.flatMap_append, List.filter_append, List.filter_append, List.filter_append,
    h.filter_level_sink hsink, ← List.append_assoc, hunits, hunits, passes_eq, ← hpasses]

omit h in
/-- The counters, once the concurrent pass has come to `p`. -/
theorem get?_invocations {p : Progress} {name : String}
    (hcount : p.invocations.get? name = Dict.raise none
      (((e.unitsOf c).flatMap (unitEvents (e.passes c).1)).countP (·.analyzer == name))) :
    (p.afterAll (e.laterEvents c)).invocations.get? name
      = Dict.raise none ((e.allEvents c).countP (·.analyzer == name)) := by
  have hperm := (e.perm_passes c).countP_eq (·.analyzer == name)
  rw [List.countP_append] at hperm
  rw [Progress.get?_invocations_afterAll, hcount, Dict.raise_raise, laterEvents,
    List.countP_append, ← Nat.add_assoc, hperm, allEvents, List.countP_append]

/-- The report on an analysis, once the concurrent pass has come to `p`. -/
theorem report_eq {p q : Progress} (hsink : Interleaving (e.pushes c) p.reported)
    (hcounts : ∀ name, p.invocations.get? name = Dict.raise none
      (((e.unitsOf c).flatMap (unitEvents (e.passes c).1)).countP (·.analyzer == name)))
    (hq : q = p.afterAll (e.laterEvents c)) :
    (e.report c q).diagnostics = e.finish ((e.allEvents c).flatMap (·.reports)) ∧
      ∀ name, (e.report c q).timings.get? name
        = (Dict.raise none ((e.allEvents c).countP (·.analyzer == name))).map
            fun n => { count := .ofNat n } := by
  constructor
  · show e.finish q.reported = _
    rw [hq, h.finish_reported hsink]
  · intro name
    rw [← get?_invocations (hcounts name), ← hq]
    exact Dict.get?_map q.invocations _ name

/-- The report under a schedule. -/
theorem report_runScheduled {sink : List Diagnostic} (hsink : Interleaving (e.pushes c) sink) :
    (e.analyzeScheduled c sink).diagnostics = e.finish ((e.allEvents c).flatMap (·.reports)) ∧
      ∀ name, (e.analyzeScheduled c sink).timings.get? name
        = (Dict.raise none ((e.allEvents c).countP (·.analyzer == name))).map
            fun n => { count := .ofNat n } := by
  obtain ⟨p, -, rfl, hcounts, hq⟩ := h.unstopped.exists_runScheduled_eq sink
  exact h.report_eq hsink hcounts hq

/-- The report when the units take their turns. -/
theorem report_run :
    (e.analyze c).diagnostics = e.finish ((e.allEvents c).flatMap (·.reports)) ∧
      ∀ name, (e.analyze c).timings.get? name
        = (Dict.raise none ((e.allEvents c).countP (·.analyzer == name))).map
            fun n => { count := .ofNat n } := by
  obtain ⟨p, -, hp, hcounts, hq⟩ := h.unstopped.exists_run_eq
  exact h.report_eq (hp ▸ Interleaving.flatten _) hcounts hq

end Orderly

/-- **Analyses do not depend on the schedule.**  Whatever the interleaving of the concurrent pass,
the diagnostics and the counters are those of an analysis with that pass switched off, and so are
those of the analysis that has the units take their turns. -/
theorem report_runScheduled_eq (e : Engine) (c : Compilation) (h : e.Orderly c)
    (sink : List Diagnostic) (hsink : Interleaving (e.pushes c) sink) :
    ((e.analyzeScheduled c sink).diagnostics = (e.sequential.analyze c).diagnostics ∧
      ∀ name, (e.analyzeScheduled c sink).timings.get? name
        = (e.sequential.analyze c).timings.get? name) ∧
    (e.analyze c).diagnostics = (e.sequential.analyze c).diagnostics ∧
      ∀ name, (e.analyze c).timings.get? name = (e.sequential.analyze c).timings.get? name := by
  have hsequential : e.sequential.Orderly c := ⟨h.paths, h.rules, h.regular, h.running⟩
  obtain ⟨hdiagnostics, htimings⟩ := h.report_runScheduled hsink
  obtain ⟨hdiagnostics', htimings'⟩ := h.report_run
  obtain ⟨hdiagnostics'', htimings''⟩ := hsequential.report_run
  refine ⟨⟨hdiagnostics.trans hdiagnostics''.symm, fun name => ?_⟩,
    hdiagnostics'.trans hdiagnostics''.symm, fun name => ?_⟩
  · exact (htimings name).trans (htimings'' name).symm
  · exact (htimings' name).trans (htimings'' name).symm

/-- An analyzer that reports every block. -/
def blockReporter (id : String) (concurrent : Bool) : Analyzer :=
  let rule : Rule := { (default : Rule) with id, enabledByDefault := true }
  { name := id
    rules := [rule]
    concurrent
    actions :=
      { onNode := [(.block, fun ctx =>
          { reports := [ctx.unit.diagnostic rule ctx.node.span .nothing []] })] } }

theorem regular_blockReporter (id : String) (concurrent : Bool) (c : Compilation) :
    (blockReporter id concurrent).Regular c where
  quietOnNode k action h ctx := by
    obtain ⟨rfl, rfl⟩ : k = _ ∧ action = _ := by simpa [blockReporter, Analyzer.actionsFor] using h
    rfl
  quietOnSymbol k action h ctx := by
    cases h
  ownReports k action h ctx d hd := by
    obtain ⟨rfl, rfl⟩ : k = _ ∧ action = _ := by simpa [blockReporter, Analyzer.actionsFor] using h
    obtain rfl := List.mem_singleton.mp hd
    exact ⟨_, List.mem_singleton.mpr rfl, _, _, _, rfl⟩

/-- An engine with one analyzer for each pass. -/
def twoPasses : Engine where
  config := {}
  analyzers := [blockReporter "X1" true, blockReporter "X2" false]
  generatedGlobs := []

/-- Two files, each of them an empty block. -/
def twoBlocks : Compilation where
  units :=
    let tree : Tree := ⟨#[⟨.block, [], none⟩], 0, #[none], _, rfl, rfl⟩
    [{ path := ⟨"a.cs"⟩, tree }, { path := ⟨"b.cs"⟩, tree }]

theorem report_runScheduled_eq_twoBlocks :
    twoPasses.Orderly twoBlocks ∧ ∃ sink, sink.map (·.location.file.text) = ["b.cs", "a.cs"] ∧
      Interleaving (twoPasses.pushes twoBlocks) sink ∧
      (twoPasses.analyzeScheduled twoBlocks sink).diagnostics
        = (twoPasses.sequential.analyze twoBlocks).diagnostics := by
  have h : twoPasses.Orderly twoBlocks := by
    refine ⟨by decide, by decide, ?_, rfl⟩
    intro a ha
    rcases List.mem_cons.mp ha with rfl | ha
    · exact regular_blockReporter _ _ _
    · obtain rfl := List.mem_singleton.mp ha
      exact regular_blockReporter _ _ _
  have hsink : Interleaving (twoPasses.pushes twoBlocks) _ :=
    @Interleaving.push _ [[_]] [] [] _ _
      (@Interleaving.push _ [] [[]] [] _ _ (.done (by simp)))
  exact ⟨h, _, rfl, hsink, (report_runScheduled_eq twoPasses twoBlocks h _ hsink).1.1⟩

end Engine

end TreeLint
