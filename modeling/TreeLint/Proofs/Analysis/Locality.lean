/-
TreeLint/Proofs/Analysis/Locality.lean

What is reported on a unit does not depend on the other units.

All units push into one sink, in two passes, and the sink is selected from and
sorted as a whole.  But the built-in analyzers look at one node of one unit at a
time, and their actions depend on the symbols only, so the sink is made of what
each unit yields on its own (`Engine.exists_reported_run_eq`).  A diagnostic is
level with diagnostics in its own file only.  Of the lists of level diagnostics
that the units yield at most one is not empty, whatever the order of the units
(`Engine.filter_reported_run`), and the sort is determined by these lists.

The built-in analyzers are also regular (`Engine.regular_builtin`), so all of
this holds under every schedule of the concurrent pass.
-/
import TreeLint.Proofs.Analysis.Builtin
import TreeLint.Proofs.Analysis.Unbinding

namespace TreeLint

/-! ### Lists at most one of which has elements -/

section Alone

variable {α β : Type} {xs ys : List α} {f g : α → List β}

/-- Two passes over the elements yield what one pass does that takes both yields of an element
together, if no yield of the second pass has to go past one of the first. -/
theorem flatMap_append_flatMap (h : xs.Pairwise fun x y => g x = [] ∨ f y = []) :
    xs.flatMap f ++ xs.flatMap g = xs.flatMap fun x => f x ++ g x := by
  induction xs with
  | nil => rfl
  | cons x xs ih =>
    obtain ⟨hx, hxs⟩ := List.pairwise_cons.mp h
    -- the second yield of `x` goes past the first ones of the elements after it
    have hswap : xs.flatMap f ++ g x = g x ++ xs.flatMap f := by
      by_cases hg : g x = []
      · rw [hg, List.append_nil, List.nil_append]
      · have hf : xs.flatMap f = [] :=
          List.flatMap_eq_nil_iff.mpr fun y hy => (hx y hy).resolve_left hg
        rw [hf, List.append_nil, List.nil_append]
    calc (x :: xs).flatMap f ++ (x :: xs).flatMap g
        = f x ++ (xs.flatMap f ++ g x) ++ xs.flatMap g := by
          simp only [List.flatMap_cons, List.append_assoc]
      _ = (f x ++ g x) ++ (xs.flatMap f ++ xs.flatMap g) := by
          rw [hswap]
          simp only [List.append_assoc]
      _ = _ := by rw [ih hxs, List.flatMap_cons]

/-- The order of the elements does not matter if at most one of them yields something. -/
theorem flatMap_eq_of_perm (hperm : xs.Perm ys) (h : xs.Pairwise fun x y => f x = [] ∨ f y = []) :
    xs.flatMap f = ys.flatMap f := by
  induction hperm with
  | nil => rfl
  | cons x _ ih => rw [List.flatMap_cons, List.flatMap_cons, ih h.of_cons]
  | swap x y xs =>
    have hxy := (List.pairwise_cons.mp h).1 x List.mem_cons_self
    simp only [List.flatMap_cons]
    rcases hxy with hy | hx
    · rw [hy, List.nil_append, List.nil_append]
    · rw [hx, List.nil_append, List.nil_append]
  | trans hxy _ ihxy ihyz =>
    rw [ihxy h, ihyz (hxy.pairwise h fun hf => hf.symm)]

/-- An element yields all there is if the others yield nothing. -/
theorem flatMap_eq_of_mem {R : α → α → Prop} (hR : ∀ x y, R x y → R y x) (hxs : xs.Pairwise R)
    {x : α} (hx : x ∈ xs) (hf : ∀ y, R x y → f y = []) : xs.flatMap f = f x := by
  obtain ⟨before, after, rfl⟩ := List.append_of_mem hx
  rw [List.pairwise_append, List.pairwise_cons] at hxs
  obtain ⟨-, ⟨hafter, -⟩, hbefore⟩ := hxs
  have hbefore : before.flatMap f = [] :=
    List.flatMap_eq_nil_iff.mpr fun y hy => hf y (hR y x (hbefore y hy x List.mem_cons_self))
  have hafter : after.flatMap f = [] := List.flatMap_eq_nil_iff.mpr fun y hy => hf y (hafter y hy)
  rw [List.flatMap_append, List.flatMap_cons, hbefore, hafter, List.nil_append, List.append_nil]

end Alone

/-! ### Units -/

/-- No two units have the same path. -/
def DistinctPaths (units : List SourceUnit) : Prop :=
  units.Pairwise fun u v => u.path.same v.path = false

instance (units : List SourceUnit) : Decidable (DistinctPaths units) :=
  inferInstanceAs (Decidable (units.Pairwise _))

theorem DistinctPaths.perm {units units' : List SourceUnit} (h : DistinctPaths units)
    (hperm : units.Perm units') : DistinctPaths units' := by
  refine hperm.pairwise h ?_
  intro u v huv
  rwa [Path.same_comm]

namespace Compilation

/-- The compilation without the other units. -/
def only (c : Compilation) (u : SourceUnit) : Compilation := { c with units := [u] }

/-- The units in the order of their paths. -/
def inPathOrder (c : Compilation) : List SourceUnit :=
  c.units.mergeSort fun u v => u.path.compare v.path != .gt

theorem perm_inPathOrder (c : Compilation) : c.inPathOrder.Perm c.units :=
  List.mergeSort_perm _ _

theorem inPathOrder_eq_insertionSort (c : Compilation) : c.inPathOrder =
    c.units.insertionSort fun u v => (u.path.compare v.path != .gt) = true :=
  mergeSort_eq_insertionSort (fun u v w => noLater_trans u.path v.path w.path)
    (fun u v => noLater_total u.path v.path) c.units

/-- Units with different paths come one strictly after the other. -/
theorem pairwise_inPathOrder {c : Compilation} (h : DistinctPaths c.units) :
    c.inPathOrder.Pairwise fun u v => u.path.compare v.path = .lt := by
  have hle : c.inPathOrder.Pairwise fun u v => (u.path.compare v.path != .gt) = true :=
    List.pairwise_mergeSort (fun u v w => noLater_trans u.path v.path w.path)
      (fun u v => noLater_total u.path v.path) c.units
  refine (hle.and (h.perm c.perm_inPathOrder.symm)).imp ?_
  rintro u v ⟨hle, hne⟩
  rw [bne_iff_ne] at hle
  rcases hcompare : u.path.compare v.path with - | - | -
  · rfl
  · rw [Path.compare_eq_eq_iff.mp hcompare] at hne
    cases hne
  · exact absurd hcompare hle

end Compilation

namespace Engine

section Builtin

variable {e : Engine} {c : Compilation} {d : Diagnostic} {u : SourceUnit}

/-! ### Schedules -/

/-- An analyzer with one node action is regular if that action reports the analyzer's rules on the
unit at hand. -/
theorem regular_of_onNode_eq {a : Analyzer} {kind : Kind} {check : NodeContext → List Diagnostic}
    (hnode : (a.actionsFor c).onNode = [(kind, fun ctx => { reports := check ctx })])
    (hsymbol : (a.actionsFor c).onSymbol = [])
    (hcheck : ∀ ctx, ∀ d ∈ check ctx, ∃ r ∈ a.rules, ∃ span payload args,
      d = ctx.unit.diagnostic r span payload args) : a.Regular c := by
  have hquiet : Prepared.Quiet ⟨a, a.actionsFor c⟩ := quiet_of_onNode_eq hnode hsymbol
  refine ⟨hquiet.onNode, hquiet.onSymbol, ?_⟩
  intro k action haction ctx d hd
  rw [hnode, List.mem_singleton] at haction
  obtain ⟨rfl, rfl⟩ := Prod.mk.inj haction
  exact hcheck ctx d hd

theorem regular_builtin {a : Analyzer} (ha : a ∈ builtinAnalyzers) (c : Compilation) :
    a.Regular c := by
  rw [builtinAnalyzers, List.mem_cons, List.mem_cons, List.mem_singleton] at ha
  rcases ha with rfl | rfl | rfl
  · refine regular_of_onNode_eq rfl rfl ?_
    intro ctx d hd
    obtain ⟨identifier, equals, -, rfl⟩ := EqualsHashCode.exists_of_mem_check hd
    exact ⟨_, List.mem_singleton_self _, _, _, _, rfl⟩
  · refine regular_of_onNode_eq rfl rfl ?_
    intro ctx d hd
    obtain ⟨expression, enum, covered, -, -, -, -, -, rfl⟩ := SwitchEnum.exists_of_mem_check hd
    exact ⟨_, List.mem_singleton_self _, _, _, _, rfl⟩
  · refine regular_of_onNode_eq rfl rfl ?_
    intro ctx d hd
    obtain ⟨literal, value, name, -, -, -, rfl⟩ := PropertyChanged.exists_of_mem_check hd
    exact ⟨_, List.mem_singleton_self _, _, _, _, rfl⟩

theorem orderly_builtin (he : e.analyzers = builtinAnalyzers) (hrunning : e.cancelled = false)
    (hpaths : DistinctPaths c.units) : e.Orderly c where
  paths := hpaths
  rules := by
    rw [he]
    decide
  regular a ha := regular_builtin (he ▸ ha) c
  running := hrunning

/-- The built-in analyzers come to the same diagnostics under every schedule. -/
theorem diagnostics_runScheduled (he : e.analyzers = builtinAnalyzers)
    (hrunning : e.cancelled = false) (hpaths : DistinctPaths c.units) {sink : List Diagnostic}
    (hsink : Interleaving (e.pushes c) sink) :
    (e.analyzeScheduled c sink).diagnostics = (e.analyze c).diagnostics := by
  have horderly := orderly_builtin he hrunning hpaths
  exact (horderly.report_runScheduled hsink).1.trans horderly.report_run.1.symm

/-! ### Reports on one of several units -/

/-- Every pass takes the units one by one. -/
theorem exists_reported_run_eq (he : e.analyzers = builtinAnalyzers)
    (hrunning : e.cancelled = false) (c : Compilation) :
    ∃ first second : SourceUnit → List Diagnostic, ∀ units : List SourceUnit,
      (e.run { c with units }).reported = units.flatMap first ++ units.flatMap second := by
  refine ⟨fun u => unitReports (e.passes c).1 ⟨u, c.symbols, e.isGenerated u⟩,
    fun u => unitReports (e.passes c).2 ⟨u, c.symbols, e.isGenerated u⟩, ?_⟩
  intro units
  have hpasses : e.passes { c with units } = e.passes c :=
    congrArg (List.partition _) (prepare_eq_of_symbols_eq he rfl)
  rw [reported_run_eq he hrunning, hpasses, unitsOf, List.flatMap_map, List.flatMap_map]

theorem mem_reported_run (he : e.analyzers = builtinAnalyzers) (hrunning : e.cancelled = false) :
    d ∈ (e.run c).reported ↔ ∃ u ∈ c.units, d ∈ (e.run (c.only u)).reported := by
  obtain ⟨first, second, hreported⟩ := exists_reported_run_eq he hrunning c
  have honly : ∀ u, (e.run (c.only u)).reported = first u ++ second u := by
    intro u
    rw [Compilation.only, hreported, List.flatMap_singleton, List.flatMap_singleton]
  simp only [honly, hreported c.units, List.mem_append, List.mem_flatMap]
  constructor
  · rintro (⟨u, hu, hd⟩ | ⟨u, hu, hd⟩)
    · exact ⟨u, hu, .inl hd⟩
    · exact ⟨u, hu, .inr hd⟩
  · rintro ⟨u, hu, hd | hd⟩
    · exact .inl ⟨u, hu, hd⟩
    · exact .inr ⟨u, hu, hd⟩

/-- What is reported on a unit is in its file. -/
theorem file_eq_of_mem_reported (he : e.analyzers = builtinAnalyzers)
    (hd : d ∈ (e.run (c.only u)).reported) : d.location.file = u.path := by
  obtain ⟨v, hv, hfile, -⟩ := reports_founded he _ d hd
  rw [hfile, List.mem_singleton.mp hv]

theorem file_eq_of_mem_diagnostics (he : e.analyzers = builtinAnalyzers)
    (hd : d ∈ (e.analyze (c.only u)).diagnostics) : d.location.file = u.path := by
  obtain ⟨v, hv, hfile, -⟩ := founded_of_mem_diagnostics he hd
  rw [hfile, List.mem_singleton.mp hv]

/-- Nothing on a unit is level with a diagnostic in another file. -/
theorem filter_reported_eq_nil (he : e.analyzers = builtinAnalyzers)
    (hd : d.location.file.same u.path = false) :
    (e.run (c.only u)).reported.filter d.level = [] := by
  rw [List.filter_eq_nil_iff]
  intro d' hd' hlevel
  have hsame := (Diagnostic.level_iff.mp hlevel).1
  rw [file_eq_of_mem_reported he hd', hd] at hsame
  cases hsame

/-- Of two units with different paths one yields nothing that is level with a given diagnostic. -/
theorem filter_reported_eq_nil_or (he : e.analyzers = builtinAnalyzers) (c : Compilation)
    (d : Diagnostic) {u v : SourceUnit} (huv : u.path.same v.path = false) :
    (e.run (c.only u)).reported.filter d.level = [] ∨
      (e.run (c.only v)).reported.filter d.level = [] := by
  by_cases hd : d.location.file.same u.path = true
  · rw [← Path.same_eq_of_same hd] at huv
    exact .inr (filter_reported_eq_nil he huv)
  · exact .inl (filter_reported_eq_nil he (eq_false_of_ne_true hd))

/-- What is level with a diagnostic, unit by unit. -/
theorem filter_reported_run (he : e.analyzers = builtinAnalyzers) (hrunning : e.cancelled = false)
    (hpaths : DistinctPaths c.units) (d : Diagnostic) :
    (e.run c).reported.filter d.level
      = c.units.flatMap fun u => (e.run (c.only u)).reported.filter d.level := by
  obtain ⟨first, second, hreported⟩ := exists_reported_run_eq he hrunning c
  have honly : ∀ u, (e.run (c.only u)).reported.filter d.level
      = (first u).filter d.level ++ (second u).filter d.level := by
    intro u
    rw [Compilation.only, hreported, List.flatMap_singleton, List.flatMap_singleton,
      List.filter_append]
  -- a second yield that counts and a first one that counts are of the same unit
  have halone : c.units.Pairwise fun u v =>
      (second u).filter d.level = [] ∨ (first v).filter d.level = [] := by
    refine hpaths.imp ?_
    intro u v huv
    have hnil := filter_reported_eq_nil_or he c d huv
    rw [honly, honly, List.append_eq_nil_iff, List.append_eq_nil_iff] at hnil
    exact hnil.imp (·.2) (·.1)
  rw [hreported c.units, List.filter_append, List.filter_flatMap, List.filter_flatMap,
    flatMap_append_flatMap halone]
  exact List.flatMap_congr fun u _ => (honly u).symm

/-- What is shown that is level with a diagnostic comes from what was reported like that. -/
theorem filter_diagnostics (e : Engine) (c : Compilation) (d : Diagnostic) :
    (e.analyze c).diagnostics.filter d.level
      = ((e.run c).reported.filter d.level).filterMap e.select? := by
  show (e.finish (e.run c).reported).filter d.level = _
  rw [finish, Diagnostic.filter_sort, filter_filterMap_select?]

/-- The diagnostics on all units are those on each of them, in path order. -/
theorem diagnostics_eq_flatMap (he : e.analyzers = builtinAnalyzers)
    (hrunning : e.cancelled = false) (hpaths : DistinctPaths c.units) :
    (e.analyze c).diagnostics
      = c.inPathOrder.flatMap fun u => (e.analyze (c.only u)).diagnostics := by
  have hpairwise : (c.inPathOrder.flatMap fun u => (e.analyze (c.only u)).diagnostics).Pairwise
      fun a b => (a.compare b != .gt) = true := by
    rw [List.pairwise_flatMap]
    refine ⟨fun u _ => Diagnostic.pairwise_sort _, ?_⟩
    -- the files are in order, so what follows in the comparison does not matter
    refine (Compilation.pairwise_inPathOrder hpaths).imp ?_
    intro u v huv a ha b hb
    rw [Diagnostic.compare, file_eq_of_mem_diagnostics he ha, file_eq_of_mem_diagnostics he hb, huv]
    rfl
  refine Diagnostic.sort_eq_of_pairwise hpairwise ?_
  intro d
  have halone : c.inPathOrder.Pairwise fun u v =>
      (e.run (c.only u)).reported.filter d.level = [] ∨
        (e.run (c.only v)).reported.filter d.level = [] :=
    (hpaths.perm c.perm_inPathOrder.symm).imp fun huv => filter_reported_eq_nil_or he c d huv
  rw [filter_filterMap_select?, filter_reported_run he hrunning hpaths,
    ← flatMap_eq_of_perm c.perm_inPathOrder halone, List.filterMap_flatMap, List.filter_flatMap]
  exact List.flatMap_congr fun u _ => (filter_diagnostics e (c.only u) d).symm

/-- The diagnostics in the file of a unit are those on the unit alone. -/
theorem filter_file_diagnostics (he : e.analyzers = builtinAnalyzers)
    (hrunning : e.cancelled = false) (hpaths : DistinctPaths c.units) (hu : u ∈ c.units) :
    (e.analyze c).diagnostics.filter (·.location.file.same u.path)
      = (e.analyze (c.only u)).diagnostics := by
  have hdistinct : c.inPathOrder.Pairwise fun u v => u.path.same v.path = false :=
    hpaths.perm c.perm_inPathOrder.symm
  have hothers : ∀ v, u.path.same v.path = false →
      (e.analyze (c.only v)).diagnostics.filter (·.location.file.same u.path) = [] := by
    intro v huv
    rw [List.filter_eq_nil_iff]
    intro d hd hsame
    rw [file_eq_of_mem_diagnostics he hd, Path.same_comm, huv] at hsame
    cases hsame
  have hown : (e.analyze (c.only u)).diagnostics.filter (·.location.file.same u.path)
      = (e.analyze (c.only u)).diagnostics := by
    rw [List.filter_eq_self]
    intro d hd
    rw [file_eq_of_mem_diagnostics he hd, Path.same_iff]
  rw [diagnostics_eq_flatMap he hrunning hpaths, List.filter_flatMap]
  refine (flatMap_eq_of_mem ?_ hdistinct (c.perm_inPathOrder.mem_iff.mpr hu) hothers).trans hown
  intro v w hvw
  rwa [Path.same_comm]

end Builtin

/-- **Units are analysed on their own.**  With the built-in analyzers, no stop and units with
different paths, the diagnostics are those on each unit alone, in path order, and that under every
schedule of the concurrent pass.  So what is shown in the file of a unit depends on that unit and on
the symbols, not on the other units, and the order of the units does not matter; and the settings
can be applied to all reports if they can be applied to those on each unit. -/
theorem diagnostics_eq_flatMap_only (e : Engine) (he : e.analyzers = builtinAnalyzers)
    (hrunning : e.cancelled = false) (c : Compilation) (hpaths : DistinctPaths c.units) :
    ((e.analyze c).diagnostics
        = c.inPathOrder.flatMap fun u => (e.analyze (c.only u)).diagnostics) ∧
      (∀ sink, Interleaving (e.pushes c) sink →
        (e.analyzeScheduled c sink).diagnostics = (e.analyze c).diagnostics) ∧
      (∀ units, DistinctPaths units → ∀ u ∈ c.units, u ∈ units →
        (e.analyze { c with units }).diagnostics.filter (·.location.file.same u.path)
          = (e.analyze c).diagnostics.filter (·.location.file.same u.path)) ∧
      (∀ units, c.units.Perm units →
        (e.analyze { c with units }).diagnostics = (e.analyze c).diagnostics) ∧
      ((e.analyze? c).isSome ↔ ∀ u ∈ c.units, (e.analyze? (c.only u)).isSome) := by
  refine ⟨diagnostics_eq_flatMap he hrunning hpaths,
    fun sink => diagnostics_runScheduled he hrunning hpaths, ?_, ?_, ?_⟩
  · intro units hunits u hu hu'
    rw [filter_file_diagnostics he hrunning hpaths hu]
    exact filter_file_diagnostics (c := { c with units }) he hrunning hunits hu'
  · intro units hperm
    apply finish_eq_of_filter_eq
    intro d
    rw [filter_reported_run (c := { c with units }) he hrunning (hpaths.perm hperm),
      filter_reported_run he hrunning hpaths]
    refine (flatMap_eq_of_perm hperm (hpaths.imp ?_)).symm
    exact fun huv => filter_reported_eq_nil_or he c d huv
  · have hsome : ∀ c, (e.analyze? c).isSome ↔ ∀ d ∈ (e.run c).reported, e.canSelect d = true := by
      intro c
      rw [analyze?, ← List.all_eq_true]
      split <;> simp_all
    simp only [hsome, mem_reported_run (c := c) he hrunning]
    constructor
    · exact fun h u hu d hd => h d ⟨u, hu, hd⟩
    · rintro h d ⟨u, hu, hd⟩
      exact h u hu d hd

/-- Two classes in files that do not come in path order, with a report on each. -/
theorem diagnostics_eq_flatMap_only_overridingClasses :
    let half : NodeMap := ⟨[(2, 5), (3, 6)], by simp⟩
    let unconfigured : Engine := ⟨{}, builtinAnalyzers, [], false⟩
    let c := { overridingClasses half with units := (overridingClasses half).units.reverse }
    (unconfigured.run c).reported.map (·.location.file.text) = ["b.cs", "a.cs"] ∧
      c.inPathOrder.map (·.path.text) = ["a.cs", "b.cs"] ∧
      (unconfigured.analyze c).diagnostics
        = c.inPathOrder.flatMap fun u => (unconfigured.analyze (c.only u)).diagnostics := by
  intro half unconfigured c
  have hpaths : DistinctPaths c.units := by decide
  refine ⟨?_, ?_, (diagnostics_eq_flatMap_only unconfigured rfl rfl c hpaths).1⟩
  · decide +kernel
  · rw [Compilation.inPathOrder_eq_insertionSort]
    decide +kernel

end Engine

end TreeLint
