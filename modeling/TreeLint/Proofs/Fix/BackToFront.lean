/-
TreeLint/Proofs/Fix/BackToFront.lean

Fixing back to front is fixing everything at once.

A plan takes the diagnostics of a unit back to front, fixes each in the tree
that the fixes before it have left, and skips those that overlap one already
fixed.  The diagnostics that it does not skip are known beforehand
(`Diagnostic.selected`), none of their fixes fails, and the text that comes out
is the original text with all their edits carried out at once, each of them
computed from the original tree (`FixOutcome.FixesAtOnce`).

A fix leaves everything before the end of its span as it was, up to numbers, and
the next one is about a span that ends before all those fixed so far begin:
they do not overlap, and the next one does not begin behind them.
-/
import TreeLint.Proofs.Analysis.Builtin
import TreeLint.Proofs.PathMap
import Mathlib.Data.List.Pairwise

namespace TreeLint

open Element

/-! ### Selected diagnostics -/

namespace Diagnostic

/-- Whether there is a fix for the rule. -/
def isFixable (d : Diagnostic) : Bool := d.ruleId == "SC0002" || d.ruleId == "SC0003"

/-- Whether `a` begins further back than `b`, or begins with it and does not end before it. -/
def isFurtherBack (a b : Diagnostic) : Bool :=
  b.span.start < a.span.start || (a.span.start == b.span.start && b.span.stop ≤ a.span.stop)

/-- Keeps one more diagnostic, unless it overlaps one that is kept. -/
def keepApart (kept : List Diagnostic) (d : Diagnostic) : List Diagnostic :=
  if kept.any (·.span.overlaps d.span) then kept else kept ++ [d]

/-- Goes through diagnostics back to front and keeps those that overlap none kept before. -/
def selectApart (ds : List Diagnostic) : List Diagnostic :=
  (ds.mergeSort isFurtherBack).foldl keepApart []

/-- The diagnostics in a file that are fixed. -/
def selected (file : Path) (ds : List Diagnostic) : List Diagnostic :=
  selectApart (ds.filter fun d => d.location.file.same file && d.isFixable)

theorem keepApart_ne_nil (kept : List Diagnostic) (d : Diagnostic) : keepApart kept d ≠ [] := by
  rw [keepApart]
  cases kept with
  | nil => exact List.cons_ne_nil d []
  | cons k kept =>
    split
    · exact List.cons_ne_nil k kept
    · exact List.cons_ne_nil k (kept ++ [d])

/-- Of some diagnostics, at least one is selected. -/
theorem selectApart_eq_nil_iff {ds : List Diagnostic} : selectApart ds = [] ↔ ds = [] := by
  constructor
  · intro h
    rcases List.eq_nil_or_concat (ds.mergeSort isFurtherBack) with hnil | ⟨init, last, hlast⟩
    · rw [← List.length_eq_zero_iff, ← List.length_mergeSort ds, hnil, List.length_nil]
    · rw [selectApart, hlast, List.concat_eq_append, List.foldl_concat] at h
      exact absurd h (keepApart_ne_nil _ last)
  · rintro rfl
    rw [selectApart, List.mergeSort_nil, List.foldl_nil]

theorem isFurtherBack_iff {a b : Diagnostic} : a.isFurtherBack b = true ↔
    b.span.start < a.span.start ∨ a.span.start = b.span.start ∧ b.span.stop ≤ a.span.stop := by
  rw [isFurtherBack, Bool.or_eq_true, Bool.and_eq_true, decide_eq_true_eq, decide_eq_true_eq,
    beq_iff_eq]

theorem isFurtherBack_trans (a b c : Diagnostic) (hab : a.isFurtherBack b = true)
    (hbc : b.isFurtherBack c = true) : a.isFurtherBack c = true := by
  rw [isFurtherBack_iff] at *
  omega

theorem isFurtherBack_total (a b : Diagnostic) :
    (a.isFurtherBack b || b.isFurtherBack a) = true := by
  rw [Bool.or_eq_true, isFurtherBack_iff, isFurtherBack_iff]
  omega

theorem pairwise_isFurtherBack (ds : List Diagnostic) :
    (ds.mergeSort isFurtherBack).Pairwise fun a b => a.isFurtherBack b = true :=
  List.pairwise_mergeSort isFurtherBack_trans isFurtherBack_total ds

/-- Back to front, diagnostics begin one before the other. -/
theorem pairwise_mergeSort (ds : List Diagnostic) :
    (ds.mergeSort isFurtherBack).Pairwise fun a b => b.span.start ≤ a.span.start := by
  refine (pairwise_isFurtherBack ds).imp ?_
  intro a b hab
  rw [isFurtherBack_iff] at hab
  omega

/-- What is flagged takes up bytes. -/
theorem Flags.start_lt_stop {t : Tree} {d : Diagnostic} (h : d.Flags t)
    (ht : t.top.WellFormedSwitches) : d.span.start < d.span.stop := by
  cases h with
  | literal hrule hpayload hx hkind htoken htext hspan =>
    rw [hspan]
    exact (t.placed_top.below hx).visible_of_childOfKind? htoken htext
  | switch hrule hpayload hmembers hx hexpression hspan =>
    obtain ⟨_, _, _, _, hparts⟩ := ht.exists_parts hx hexpression
    rw [hspan]
    exact hparts.visible_expression (t.placed_top.below hx)

end Diagnostic

/-- The text of `T` is the text of `t` with the edits for all diagnostics carried out at once, each
computed from `t`. -/
def Tree.FixedAtOnce (t : Tree) (ds : List Diagnostic) (T : Tree) : Prop :=
  ∃ edits, ds.map t.textEdit? = edits.map some ∧
    T.text.toByteArray = TextEdit.applyAll t.text edits

/-! ### One unit -/

namespace FixPlan

open Diagnostic

/-- The fix is the one for a diagnostic that flags something of the tree. -/
structure Ready (t : Tree) (fix : PendingFix) : Prop where
  flags : fix.diagnostic.Flags t
  provider_eq : builtinFixes.find? (·.canFix fix.diagnostic.ruleId) = some fix.provider

/-- Of the diagnostics tried so far, those in `kept` have been fixed and none has failed. -/
structure Attempt.Fixes (t : Tree) (kept : List Diagnostic) (a : Attempt) : Prop where
  spans_eq : a.spans = kept.map (·.span)
  eq_nil_of_none : a.current = none → kept = []
  failed_eq : a.tally.failed = 0
  visible : ∀ k ∈ kept, k.span.start < k.span.stop
  amended : ∃ r edits, kept.map t.textEdit? = edits.map some ∧
    Amended t r (kept.map (·.span)) edits (a.current.getD t)

variable {t : Tree} {file : Path} {kept : List Diagnostic} {a : Attempt} {fix : PendingFix}
variable {fixes : List PendingFix}

/-- A span that does not overlap those further back ends before they begin. -/
theorem stop_le_start_of_not_overlaps {s k : Span} (hback : s.start ≤ k.start)
    (hk : k.start < k.stop) (h : k.overlaps s = false) : s.stop ≤ k.start := by
  rw [Span.overlaps, Bool.and_eq_false_iff, decide_eq_false_iff_not, decide_eq_false_iff_not] at h
  omega

/-- Trying the next fix fixes its diagnostic, or skips it for one that it overlaps. -/
theorem Attempt.Fixes.tryFix (h : a.Fixes t kept) (ht : t.top.WellFormedSwitches)
    (hready : Ready t fix) (hback : ∀ k ∈ kept, fix.span.start ≤ k.span.start) :
    (tryFix file t a fix).Fixes t (keepApart kept fix.diagnostic) := by
  have hany : a.spans.any (·.overlaps fix.span)
      = kept.any (·.span.overlaps fix.diagnostic.span) := by
    rw [h.spans_eq, List.any_map]
    rfl
  rw [FixPlan.tryFix, keepApart, hany]
  by_cases hoverlap : kept.any (·.span.overlaps fix.diagnostic.span) = true
  · rw [if_pos hoverlap, if_pos hoverlap]
    exact { h with }
  · rw [if_neg hoverlap, if_neg hoverlap]
    -- back to front, what does not overlap ends before everything fixed so far begins
    have hspans : ∀ s ∈ kept.map (·.span), fix.diagnostic.span.stop ≤ s.start := by
      intro s hs
      obtain ⟨k, hk, rfl⟩ := List.mem_map.mp hs
      rw [Bool.not_eq_true, List.any_eq_false] at hoverlap
      exact stop_le_start_of_not_overlaps (hback k hk) (h.visible k hk)
        (Bool.not_eq_true _ ▸ hoverlap k hk)
    obtain ⟨r, edits, hedits, hamended⟩ := h.amended
    obtain ⟨T', r', edit, hfix, hedit, hamended'⟩ :=
      hamended.exists_fix_eq ht hready.flags hspans hready.provider_eq
    rw [hfix]
    refine ⟨?_, ?_, ?_, ?_, r', edits ++ [edit], ?_, ?_⟩
    · rw [List.map_append, h.spans_eq]
      rfl
    · intro hnone
      cases hnone
    · have hfailed := h.failed_eq
      cases hsafety : fix.safety <;> exact hfailed
    · intro k hk
      rcases List.mem_append.mp hk with hk | hk
      · exact h.visible k hk
      · rw [List.mem_singleton.mp hk]
        exact hready.flags.start_lt_stop ht
    · rw [List.map_append, hedits, List.map_append, List.map_singleton, hedit]
      rfl
    · rw [List.map_append]
      exact hamended'

/-- Trying fixes back to front fixes the diagnostics that are kept apart. -/
theorem Attempt.Fixes.foldl_tryFix (h : a.Fixes t kept) (ht : t.top.WellFormedSwitches)
    (hready : ∀ fix ∈ fixes, Ready t fix)
    (hsorted : fixes.Pairwise fun f g => g.span.start ≤ f.span.start)
    (hback : ∀ fix ∈ fixes, ∀ k ∈ kept, fix.span.start ≤ k.span.start) :
    (fixes.foldl (FixPlan.tryFix file t) a).Fixes t
      ((fixes.map (·.diagnostic)).foldl keepApart kept) := by
  induction fixes generalizing a kept with
  | nil => exact h
  | cons fix fixes ih =>
    obtain ⟨hfirst, hrest⟩ := List.pairwise_cons.mp hsorted
    rw [List.map_cons, List.foldl_cons, List.foldl_cons]
    apply ih
    · exact h.tryFix ht (hready fix List.mem_cons_self) (hback fix List.mem_cons_self)
    · exact fun g hg => hready g (List.mem_cons_of_mem fix hg)
    · exact hrest
    · intro g hg k hk
      rw [keepApart] at hk
      split at hk
      · exact hback g (List.mem_cons_of_mem fix hg) k hk
      · rcases List.mem_append.mp hk with hk | hk
        · exact hback g (List.mem_cons_of_mem fix hg) k hk
        · rw [List.mem_singleton.mp hk]
          exact hfirst g hg

theorem map_mergeSort_isNoLater (fixes : List PendingFix) :
    (fixes.mergeSort PendingFix.isNoLater).map (·.diagnostic)
      = (fixes.map (·.diagnostic)).mergeSort isFurtherBack :=
  List.map_mergeSort fun _ _ _ _ => rfl

/-- The fixes of a unit fix the diagnostics that are selected. -/
theorem fixes_fixUnit {tally : FixTally} (ht : t.top.WellFormedSwitches)
    (hready : ∀ fix ∈ fixes, Ready t fix) (htally : tally.failed = 0) :
    (fixUnit file t fixes tally).Fixes t (selectApart (fixes.map (·.diagnostic))) := by
  have hsorted := pairwise_mergeSort (fixes.map (·.diagnostic))
  rw [← map_mergeSort_isNoLater, List.pairwise_map] at hsorted
  rw [fixUnit, selectApart, ← map_mergeSort_isNoLater]
  refine Attempt.Fixes.foldl_tryFix ?_ ht ?_ hsorted ?_
  · refine ⟨rfl, fun _ => rfl, htally, ?_, {}, [], rfl, .refl t⟩
    intro _ hk
    cases hk
  · intro fix hfix
    exact hready fix (List.mem_mergeSort.mp hfix)
  · intro _ _ _ hk
    cases hk

/-! ### Collecting -/

/-- The fix of a diagnostic, if a provider of the plan serves its rule. -/
def pendingFix? (p : FixPlan) (d : Diagnostic) : Option PendingFix :=
  (p.providers.find? (·.canFix d.ruleId)).map (⟨d, ·⟩)

variable {p : FixPlan} {c : Compilation} {ds : List Diagnostic}

/-- Collecting groups the fixes of diagnostics by file. -/
theorem collect_eq (hp : p.pending = []) (ds : List Diagnostic) :
    p.collect ds = { p with pending := .group PendingFix.file (ds.filterMap p.pendingFix?) } := by
  induction ds using List.reverseRecOn with
  | nil =>
    obtain ⟨providers, pending, mode, includeRisky⟩ := p
    obtain rfl : pending = [] := hp
    rfl
  | append_singleton ds d ih =>
    rw [collect, List.foldl_concat, ← collect, ih, collectOne, List.filterMap_append]
    rcases hfind : p.providers.find? (·.canFix d.ruleId) with - | provider
    · have hnone : p.pendingFix? d = none := by
        rw [pendingFix?, hfind, Option.map_none]
      rw [List.filterMap_cons_none hnone, List.filterMap_nil, List.append_nil]
      simp only [hfind]
    · have hsome : p.pendingFix? d = some ⟨d, provider⟩ := by
        rw [pendingFix?, hfind, Option.map_some]
      rw [List.filterMap_cons_some hsome, List.filterMap_nil, PathMap.group_append_singleton]
      simp only [hfind]
      rfl

/-- There are built-in fixes for two rules. -/
theorem isSome_find?_builtinFixes (ruleId : String) :
    (builtinFixes.find? (·.canFix ruleId)).isSome = (ruleId == "SC0002" || ruleId == "SC0003") := by
  have hcanFix : (NameOfFix.provider.canFix ruleId = (ruleId == "SC0003"))
      ∧ (MissingCasesFix.provider.canFix ruleId = (ruleId == "SC0002")) :=
    ⟨Bool.or_false _, Bool.or_false _⟩
  rw [List.isSome_find?, builtinFixes, List.any_cons, List.any_cons, List.any_nil, Bool.or_false,
    hcanFix.1, hcanFix.2, Bool.or_comm]

/-- The diagnostics that fixes are collected for in a file. -/
theorem map_diagnostic_filter (hp : p.providers = builtinFixes) (ds : List Diagnostic)
    (path : Path) :
    ((ds.filterMap p.pendingFix?).filter (·.file.same path)).map (·.diagnostic)
      = ds.filter fun d => d.location.file.same path && d.isFixable := by
  have hfixable : (ds.filterMap p.pendingFix?).map (·.diagnostic) = ds.filter isFixable := by
    rw [List.map_filterMap, ← List.filterMap_eq_filter]
    congr 1
    funext d
    rw [Option.guard, isFixable, ← isSome_find?_builtinFixes, pendingFix?, hp]
    cases builtinFixes.find? (·.canFix d.ruleId) <;> rfl
  rw [← List.filter_filter, ← hfixable, List.filter_map]
  rfl

/-! ### Applying -/

/-- The plan has the built-in providers, has collected nothing yet, and lets everything through. -/
structure TakesAll (p : FixPlan) : Prop where
  providers_eq : p.providers = builtinFixes
  pending_eq : p.pending = []
  accepts_eq : ∀ fix, p.accepts fix = true
  mode_ne : p.mode ≠ .showOnly

/-- A plan that lets risky fixes through takes all. -/
theorem takesAll_withRisky : (({} : FixPlan).withRisky true).TakesAll where
  providers_eq := rfl
  pending_eq := rfl
  accepts_eq _ := rfl
  mode_ne := by decide

/-- Applying the fixes of one file changes its unit, and none of them fails. -/
theorem exists_applyFile_eq (hp : p.TakesAll) {u : SourceUnit} (hunit : c.unit? file = some u)
    (ht : u.tree.top.WellFormedSwitches) (hready : ∀ fix ∈ fixes, Ready u.tree fix)
    (hne : fixes ≠ []) {r : FixOutcome} (hr : r.tally.failed = 0) :
    ∃ T, (p.applyFile c r (file, fixes)).tally.failed = 0 ∧
      (p.applyFile c r (file, fixes)).fixed = r.fixed ++ [(file, T)] ∧
      u.tree.FixedAtOnce (selectApart (fixes.map (·.diagnostic))) T := by
  have haccepted : fixes.filter p.accepts = fixes :=
    List.filter_eq_self.mpr fun fix _ => hp.accepts_eq fix
  have hmode : ¬ (p.mode == .showOnly) = true := by
    rw [beq_iff_eq]
    exact hp.mode_ne
  have hfixes : (fixUnit file u.tree fixes (r.tally.skip (fixes.length - fixes.length))).Fixes
      u.tree (selectApart (fixes.map (·.diagnostic))) := fixes_fixUnit ht hready hr
  rcases hcurrent : (fixUnit file u.tree fixes
      (r.tally.skip (fixes.length - fixes.length))).current with - | T
  · have hnil := hfixes.eq_nil_of_none hcurrent
    rw [selectApart_eq_nil_iff, List.map_eq_nil_iff] at hnil
    exact absurd hnil hne
  · obtain ⟨r', edits, hedits, hamended⟩ := hfixes.amended
    rw [hcurrent] at hamended
    refine ⟨T, ?_, ?_, edits, hedits, hamended.toByteArray_text⟩
    · simp only [applyFile, haccepted, if_neg hmode, hunit, hcurrent, recordUnit]
      exact hfixes.failed_eq
    · simp only [applyFile, haccepted, if_neg hmode, hunit, hcurrent, recordUnit]

/-- After the fixes of some files have been applied: none has failed, and exactly the units of these
files have changed. -/
structure Applied (c : Compilation) (entries : PathMap (List PendingFix)) (r : FixOutcome) :
    Prop where
  failed_eq : r.tally.failed = 0
  of_fixed : ∀ f ∈ r.fixed, ∃ e ∈ entries, ∃ u, c.unit? e.1 = some u ∧ f.1 = e.1 ∧
    u.tree.FixedAtOnce (selectApart (e.2.map (·.diagnostic))) f.2
  fixed_of : ∀ e ∈ entries, ∃ f ∈ r.fixed, f.1 = e.1

/-- An entry is about a unit, and its fixes are for what is flagged there. -/
structure ReadyEntry (c : Compilation) (e : Path × List PendingFix) (u : SourceUnit) : Prop where
  unit_eq : c.unit? e.1 = some u
  wellFormed : u.tree.top.WellFormedSwitches
  ready : ∀ fix ∈ e.2, Ready u.tree fix
  ne_nil : e.2 ≠ []

/-- Applying the fixes of files one after the other. -/
theorem applied_foldl (hp : p.TakesAll) {entries : PathMap (List PendingFix)}
    (h : ∀ e ∈ entries, ∃ u, ReadyEntry c e u) :
    Applied c entries (entries.foldl (p.applyFile c) {}) := by
  induction entries using List.reverseRecOn with
  | nil => exact ⟨rfl, List.forall_mem_nil _, List.forall_mem_nil _⟩
  | append_singleton entries e ih =>
    obtain ⟨hfailed, hof, hfixed⟩ := ih fun e' he' => h e' (List.mem_append_left _ he')
    obtain ⟨u, hunit, ht, hready, hne⟩ := h e (List.mem_append_right _ List.mem_cons_self)
    obtain ⟨T, hfailed', hT, hfixedAtOnce⟩ := exists_applyFile_eq hp hunit ht hready hne hfailed
    rw [List.foldl_concat]
    refine ⟨hfailed', ?_, ?_⟩
    · intro f hf
      rw [hT] at hf
      rcases List.mem_append.mp hf with hf | hf
      · obtain ⟨e', he', hf⟩ := hof f hf
        exact ⟨e', List.mem_append_left _ he', hf⟩
      · rw [List.mem_singleton.mp hf]
        exact ⟨e, List.mem_append_right _ List.mem_cons_self, u, hunit, rfl, hfixedAtOnce⟩
    · intro e' he'
      rw [hT]
      rcases List.mem_append.mp he' with he' | he'
      · obtain ⟨f, hf, hkey⟩ := hfixed e' he'
        exact ⟨f, List.mem_append_left _ hf, hkey⟩
      · rw [List.mem_singleton.mp he']
        exact ⟨(e.1, T), List.mem_append_right _ List.mem_cons_self, rfl⟩

theorem apply_collect (hp : p.pending = []) (ds : List Diagnostic) (c : Compilation) :
    (p.collect ds).apply c
      = (PathMap.group PendingFix.file (ds.filterMap p.pendingFix?)).foldl (p.applyFile c) {} := by
  rw [collect_eq hp]
  rfl

end FixPlan

/-! ### Whole compilations -/

/-- A unit is found by its path, if no other one has it. -/
theorem Compilation.unit?_eq_some {c : Compilation}
    (hc : c.units.Pairwise fun u v => u.path.same v.path = false) {u : SourceUnit}
    (hu : u ∈ c.units) {path : Path} (hpath : u.path.same path = true) : c.unit? path = some u := by
  rcases hfind : c.unit? path with - | v
  · exact absurd hpath (List.find?_eq_none.mp hfind u hu)
  · have hv : v ∈ c.units := List.mem_of_find?_eq_some hfind
    have hsame : v.path.same path = true :=
      List.find?_some (p := fun w : SourceUnit => w.path.same path) hfind
    by_contra hne
    have hsymm : Std.Symm fun u v : SourceUnit => u.path.same v.path = false := by
      constructor
      intro u v huv
      rw [Path.same_comm]
      exact huv
    have hother := hc.forall hv hu fun h => hne (congrArg some h)
    rw [Path.same_eq_of_same hsame, Path.same_comm, hpath] at hother
    cases hother

/-- What came of fixing the diagnostics of a compilation: no fix failed, and in every unit the
selected diagnostics were fixed at once. -/
structure FixOutcome.FixesAtOnce (r : FixOutcome) (c : Compilation) (ds : List Diagnostic) :
    Prop where
  failed_eq : r.tally.failed = 0
  of_mem_fixed : ∀ f ∈ r.fixed, ∃ u ∈ c.units, u.path.same f.1 = true
  get?_fixed_of_eq_nil : ∀ u ∈ c.units, Diagnostic.selected u.path ds = [] →
    r.fixed.get? u.path = none
  get?_fixed_of_ne_nil : ∀ u ∈ c.units, Diagnostic.selected u.path ds ≠ [] →
    ∃ T, r.fixed.get? u.path = some T ∧ u.tree.FixedAtOnce (Diagnostic.selected u.path ds) T

namespace FixPlan

open Diagnostic

variable {p : FixPlan} {e : Engine} {c : Compilation} {ds : List Diagnostic}

/-- All that is collected for a file flags something of one unit. -/
theorem exists_readyEntry_of_founded (hp : p.providers = builtinFixes)
    (hds : ∀ d ∈ ds, d.Founded c)
    (hc : c.units.Pairwise fun u v => u.path.same v.path = false)
    (ht : ∀ u ∈ c.units, u.tree.top.WellFormedSwitches) {entry : Path × List PendingFix}
    (hentry : entry ∈ PathMap.group PendingFix.file (ds.filterMap p.pendingFix?)) :
    ∃ u ∈ c.units, u.path.same entry.1 = true ∧ ReadyEntry c entry u := by
  obtain ⟨hvalue, hne⟩ := PathMap.of_mem_group hentry
  have hfixes : ∀ fix ∈ entry.2, ∃ u ∈ c.units, u.path.same entry.1 = true ∧
      Ready u.tree fix := by
    intro fix hfix
    rw [hvalue] at hfix
    obtain ⟨hmem, hsame⟩ := List.mem_filter.mp hfix
    obtain ⟨d, hd, hpending⟩ := List.mem_filterMap.mp hmem
    rw [pendingFix?, hp, Option.map_eq_some_iff] at hpending
    obtain ⟨provider, hfind, rfl⟩ := hpending
    obtain ⟨u, hu, hfile, hflags⟩ := hds d hd
    refine ⟨u, hu, hfile ▸ hsame, ?_, hfind⟩
    rcases hflags with hrule | hflags
    · -- there is no fix for this rule
      rw [hrule] at hfind
      cases hfind
    · exact hflags
  -- the first fix says which unit it is, and no other unit has this path
  obtain ⟨fix, hfix⟩ := List.exists_mem_of_ne_nil _ hne
  obtain ⟨u, hu, hsame, -⟩ := hfixes fix hfix
  have hunit := c.unit?_eq_some hc hu hsame
  refine ⟨u, hu, hsame, hunit, ht u hu, ?_, hne⟩
  intro fix' hfix'
  obtain ⟨v, hv, hsame', hready⟩ := hfixes fix' hfix'
  obtain rfl : v = u := Option.some.inj ((c.unit?_eq_some hc hv hsame').symm.trans hunit)
  exact hready

theorem exists_readyEntry (hp : p.providers = builtinFixes) (he : e.analyzers = builtinAnalyzers)
    (hc : c.units.Pairwise fun u v => u.path.same v.path = false)
    (ht : ∀ u ∈ c.units, u.tree.top.WellFormedSwitches) {entry : Path × List PendingFix}
    (hentry : entry ∈ PathMap.group PendingFix.file
      ((e.analyze c).diagnostics.filterMap p.pendingFix?)) :
    ∃ u ∈ c.units, u.path.same entry.1 = true ∧ ReadyEntry c entry u :=
  exists_readyEntry_of_founded hp (fun _ hd => Engine.founded_of_mem_diagnostics he hd) hc ht hentry

/-- In the file of an entry, the diagnostics of the entry are selected from. -/
theorem selectApart_eq_selected (hp : p.providers = builtinFixes) {entry : Path × List PendingFix}
    (hentry : entry ∈ PathMap.group PendingFix.file (ds.filterMap p.pendingFix?)) {path : Path}
    (hsame : entry.1.same path = true) :
    selectApart (entry.2.map (·.diagnostic)) = selected path ds := by
  have hvalue : entry.2 = (ds.filterMap p.pendingFix?).filter (·.file.same path) := by
    rw [(PathMap.of_mem_group hentry).1]
    exact List.filter_congr fun fix _ => Path.same_eq_of_same_right hsame fix.file
  rw [hvalue, map_diagnostic_filter hp, selected]

theorem Applied.of_get?_eq_some {r : FixOutcome}
    (h : Applied c (PathMap.group PendingFix.file (ds.filterMap p.pendingFix?)) r)
    (hp : p.providers = builtinFixes)
    (hc : c.units.Pairwise fun u v => u.path.same v.path = false) {u : SourceUnit}
    (hu : u ∈ c.units) {T : Tree} (hT : r.fixed.get? u.path = some T) :
    selected u.path ds ≠ [] ∧ u.tree.FixedAtOnce (selected u.path ds) T := by
  obtain ⟨f, hf, hsame, rfl⟩ := PathMap.exists_of_get?_eq_some hT
  obtain ⟨entry, hentry, v, hunit, hkey, hfixed⟩ := h.of_fixed f hf
  rw [hkey] at hsame
  obtain rfl : v = u := by
    rw [c.unit?_eq_some hc hu (Path.same_comm entry.1 u.path ▸ hsame)] at hunit
    exact (Option.some.inj hunit).symm
  rw [selectApart_eq_selected hp hentry hsame] at hfixed
  refine ⟨?_, hfixed⟩
  rw [← selectApart_eq_selected hp hentry hsame, Ne, selectApart_eq_nil_iff, List.map_eq_nil_iff]
  exact (PathMap.of_mem_group hentry).2

theorem Applied.of_get?_eq_none {r : FixOutcome}
    (h : Applied c (PathMap.group PendingFix.file (ds.filterMap p.pendingFix?)) r)
    (hp : p.providers = builtinFixes) {path : Path} (hnone : r.fixed.get? path = none) :
    selected path ds = [] := by
  rw [PathMap.get?_eq_none_iff] at hnone
  have hgroup : (PathMap.group PendingFix.file (ds.filterMap p.pendingFix?)).get? path = none := by
    rw [PathMap.get?_eq_none_iff]
    intro entry hentry
    obtain ⟨f, hf, hkey⟩ := h.fixed_of entry hentry
    rw [← hkey]
    exact hnone f hf
  have hitems : (ds.filterMap p.pendingFix?).filter (·.file.same path) = [] := by
    rw [PathMap.get?_group, Option.filter_eq_none_iff] at hgroup
    have hempty := hgroup _ rfl
    rw [Bool.not_eq_true, Bool.not_eq_false', List.isEmpty_iff] at hempty
    exact hempty
  rw [selected, ← map_diagnostic_filter hp, hitems, List.map_nil, selectApart_eq_nil_iff]

/-- **Fixing back to front is fixing at once.**  If no two units have the same path and all switch
statements are made up as they should be, no fix of what the built-in analyzers report fails, and
the text of a unit becomes its original text with the edits for all selected diagnostics carried out
at once, each computed from the original tree. -/
theorem fixesAtOnce_apply_collect (hp : p.TakesAll) (he : e.analyzers = builtinAnalyzers)
    (hc : c.units.Pairwise fun u v => u.path.same v.path = false)
    (ht : ∀ u ∈ c.units, u.tree.top.WellFormedSwitches) :
    ((p.collect (e.analyze c).diagnostics).apply c).FixesAtOnce c (e.analyze c).diagnostics := by
  have hentries : ∀ entry ∈ PathMap.group PendingFix.file
      ((e.analyze c).diagnostics.filterMap p.pendingFix?),
      ∃ u ∈ c.units, u.path.same entry.1 = true ∧ ReadyEntry c entry u :=
    fun _ hentry => exists_readyEntry hp.providers_eq he hc ht hentry
  have happlied := applied_foldl hp (c := c) (by
    intro entry hentry
    obtain ⟨u, -, -, hready⟩ := hentries entry hentry
    exact ⟨u, hready⟩)
  rw [← apply_collect hp.pending_eq] at happlied
  refine ⟨happlied.failed_eq, ?_, ?_, ?_⟩
  · intro f hf
    obtain ⟨entry, hentry, -, -, hkey, -⟩ := happlied.of_fixed f hf
    obtain ⟨u, hu, hsame, -⟩ := hentries entry hentry
    exact ⟨u, hu, hkey ▸ hsame⟩
  · intro u hu hnil
    rcases hget : ((p.collect (e.analyze c).diagnostics).apply c).fixed.get? u.path with - | T
    · rfl
    · exact absurd hnil (happlied.of_get?_eq_some hp.providers_eq hc hu hget).1
  · intro u hu hne
    rcases hget : ((p.collect (e.analyze c).diagnostics).apply c).fixed.get? u.path with - | T
    · exact absurd (happlied.of_get?_eq_none hp.providers_eq hget) hne
    · exact ⟨T, rfl, (happlied.of_get?_eq_some hp.providers_eq hc hu hget).2⟩

/-- A class with a switch that calls `OnPropertyChanged("hue")` in its default section. -/
def notifyingSwitch : Tree :=
  ⟨#[⟨.classDeclaration, [1], none⟩, ⟨.switchStatement, [2, 3, 4, 5, 6], none⟩,
      ⟨.switchKeyword, [], some ⟨"switch", ""⟩⟩, ⟨.identifierName, [7], none⟩,
      ⟨.openBraceToken, [], some ⟨"\x7b", ""⟩⟩, ⟨.switchSection, [8, 9], none⟩,
      ⟨.closeBraceToken, [], some ⟨"\x7d", "\n"⟩⟩, ⟨.identifierToken, [], some ⟨"a", " "⟩⟩,
      ⟨.defaultSwitchLabel, [10, 11], none⟩, ⟨.invocationExpression, [12, 13], none⟩,
      ⟨.defaultKeyword, [], some ⟨"default", "\n"⟩⟩, ⟨.colonToken, [], some ⟨":", ""⟩⟩,
      ⟨.identifierName, [14], none⟩, ⟨.argumentList, [15, 16, 17], none⟩,
      ⟨.identifierToken, [], some ⟨"OnPropertyChanged", " "⟩⟩,
      ⟨.openParenToken, [], some ⟨"(", ""⟩⟩, ⟨.argument, [18], none⟩,
      ⟨.closeParenToken, [], some ⟨")", ""⟩⟩, ⟨.literalExpression, [19], none⟩,
      ⟨.stringLiteralToken, [], some ⟨"\"hue\"", ""⟩⟩],
    0, #[none, some 0, some 1, some 1, some 1, some 1, some 1, some 3, some 5, some 5, some 8,
      some 8, some 9, some 9, some 12, some 13, some 13, some 13, some 16, some 18], _, rfl, rfl⟩

theorem wellFormedSwitches_notifyingSwitch : notifyingSwitch.top.WellFormedSwitches := by
  intro x hx hkind _
  have hswitch : notifyingSwitch.top.preorder.filter (·.kind == .switchStatement) = [_] := rfl
  have hmem : x ∈ notifyingSwitch.top.preorder.filter (·.kind == .switchStatement) :=
    List.mem_filter.mpr ⟨mem_preorder_iff.mpr hx, beq_iff_eq.mpr hkind⟩
  rw [hswitch, List.mem_singleton] at hmem
  subst hmem
  refine ⟨_, [], _, [_, _], _, rfl, rfl, rfl, by decide, List.forall_mem_nil _, rfl, by decide,
    by decide, ?_, rfl, rfl, by decide, ?_⟩
  · decide
  · decide

/-- The class, with a property `Hue`, and the enum that its switch is over. -/
def notifyingClass : Compilation where
  symbols := (((SymbolTable.empty.insert
    { name := "Color", kind := .namedType, typeKind := some .enumType }).insert
    { name := "Red", kind := .enumMember, container := some 0 }).insert
    { name := "Car", kind := .namedType, typeKind := some .classType }).insert
    { name := "Hue", kind := .property, container := some 2 }
  units := [{ path := ⟨"a.cs"⟩, tree := notifyingSwitch
              bindings := { declared := ⟨[(0, 2)], by simp⟩, types := ⟨[(3, 0)], by simp⟩ } }]

/-- An engine with the built-in analyzers and nothing configured. -/
def plainEngine : Engine where
  config := {}
  analyzers := builtinAnalyzers
  generatedGlobs := []

/-- The edit that puts `nameof` in the place of the literal. -/
def nameOfHue : TextEdit := ⟨⟨37, 42⟩, "nameof(Hue)"⟩

/-- The edit that adds a section before the default section. -/
def caseRed : TextEdit := ⟨⟨9, 9⟩, "\ncase Color.Red: throw new NotImplementedException();"⟩

theorem fixesAtOnce_apply_collect_notifyingClass :
    (({} : FixPlan).withRisky true).TakesAll ∧ plainEngine.analyzers = builtinAnalyzers ∧
      notifyingClass.units.Pairwise (fun u v => u.path.same v.path = false) ∧
      (∀ u ∈ notifyingClass.units, u.tree.top.WellFormedSwitches) ∧
      ∃ T, (((({} : FixPlan).withRisky true).collect
          (plainEngine.analyze notifyingClass).diagnostics).apply
            notifyingClass).fixed.get? ⟨"a.cs"⟩ = some T ∧
        T.text = "switch a\x7b\ncase Color.Red: throw new NotImplementedException();"
          ++ "\ndefault: OnPropertyChanged(nameof(Hue))\n\x7d" := by
  have hc : notifyingClass.units.Pairwise (fun u v => u.path.same v.path = false) :=
    List.pairwise_singleton _ _
  have ht : ∀ u ∈ notifyingClass.units, u.tree.top.WellFormedSwitches := by
    intro u hu
    rw [List.mem_singleton.mp hu]
    exact wellFormedSwitches_notifyingSwitch
  have hatOnce := fixesAtOnce_apply_collect takesAll_withRisky (e := plainEngine) rfl hc ht
  -- the literal stands further back than the expression, and is fixed first
  have hedits : (selected ⟨"a.cs"⟩ (plainEngine.analyze notifyingClass).diagnostics).map
      notifyingSwitch.textEdit? = [nameOfHue, caseRed].map some := by
    rw [Engine.diagnostics_analyze_eq_insertionSort, selected, selectApart,
      mergeSort_eq_insertionSort isFurtherBack_trans isFurtherBack_total]
    decide +kernel
  have hne : selected ⟨"a.cs"⟩ (plainEngine.analyze notifyingClass).diagnostics ≠ [] := by
    intro hnil
    rw [hnil] at hedits
    cases hedits
  obtain ⟨T, hT, edits, hedits', htext⟩ :=
    hatOnce.get?_fixed_of_ne_nil _ (List.mem_singleton.mpr rfl) hne
  obtain rfl := List.map_injective_iff.mpr (Option.some_injective _) (hedits'.symm.trans hedits)
  have hsorted : [nameOfHue, caseRed].mergeSort TextEdit.isNoLater = [caseRed, nameOfHue] :=
    TextEdit.mergeSort_eq (List.pairwise_pair.mpr ⟨by decide, by decide⟩) (by decide)
      (.swap caseRed nameOfHue [])
  refine ⟨takesAll_withRisky, rfl, hc, ht, T, hT, ?_⟩
  rw [← String.toByteArray_inj, htext, TextEdit.applyAll, hsorted]
  rfl

end FixPlan

end TreeLint
