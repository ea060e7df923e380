/-
TreeLint/Proofs/Fix/Preview.lean

What a preview lists, and what is applied.

A plan that only shows its fixes lets through the same fixes as one that applies
them with the same choice about risky ones.  So the list has each fix that is
applied and each that is let through and left out (`FixPlan.pendingFixes_perm`).

Applied fixes never overlap in a file, and a fix of what the built-in analyzers
report is left out only for one that it overlaps.  So the list is what is applied
exactly if no two fixes on it overlap (`preview_perm_applied_iff`).
-/
import TreeLint.CommandLine.Run
import TreeLint.Proofs.Fix.BackToFront
import TreeLint.Proofs.Fix.Ledger

namespace TreeLint

/-! ### Overlaps -/

/-- The fixes are in different files or have no byte in common. -/
def PendingFix.Apart (f g : PendingFix) : Prop :=
  f.file.same g.file = true → f.span.overlaps g.span = false

theorem Span.overlaps_comm (s s' : Span) : s.overlaps s' = s'.overlaps s := by
  rw [overlaps, overlaps, Bool.and_comm]

theorem PendingFix.Apart.symm {f g : PendingFix} (h : f.Apart g) : g.Apart f := by
  intro hfile
  rw [Span.overlaps_comm]
  exact h (Path.same_comm f.file g.file ▸ hfile)

namespace FixPlan

open Diagnostic

variable {p q : FixPlan} {c : Compilation} {entry : Path × List PendingFix}
variable {fixes : List PendingFix} {f : PendingFix} {u : SourceUnit}

/-- A plan that lets the same fixes through lists those applied and those left out. -/
theorem pendingFixes_perm (hpending : q.pending = p.pending) (haccepts : q.accepts = p.accepts)
    (c : Compilation) : q.pendingFixes.Perm (p.applied c ++ p.leftOut c) := by
  rw [pendingFixes, hpending, haccepts]
  exact (List.mergeSort_perm _ _).trans (filter_accepts_perm p c)

/-- The ledger of grouped fixes is about the file of each entry. -/
theorem same_of_mem_fileLedger (hpending : p.pending = .group PendingFix.file fixes)
    (hentry : entry ∈ p.pending) {e : PendingFix × Fate} (h : e ∈ p.fileLedger c entry) :
    e.1.file.same entry.1 = true := by
  have hmem : e.1 ∈ entry.2 := (map_fst_fileLedger_perm p c entry).mem_iff.mp
    (List.mem_map_of_mem h)
  rw [(PathMap.of_mem_group (hpending ▸ hentry)).1] at hmem
  exact (List.mem_filter.mp hmem).2

/-- Applied fixes do not overlap in a file. -/
theorem pairwise_applied (hpending : p.pending = .group PendingFix.file fixes) (c : Compilation) :
    (p.applied c).Pairwise PendingFix.Apart := by
  have hsorted : p.pending.Sorted := hpending ▸ PathMap.sorted_group _ _
  rw [applied, ledger, Ledger.applied_flatMap]
  refine List.pairwise_flatMap.mpr ⟨?_, ?_⟩
  · intro entry _
    refine (applied_fileLedger_apart p c entry).imp ?_
    exact fun h _ => h
  · -- what is in different entries is in different files
    refine hsorted.imp_of_mem fun {a b} ha hb hlt f hf g hg hfile => ?_
    obtain ⟨_, hf⟩ := Ledger.mem_applied_iff.mp hf
    obtain ⟨_, hg⟩ := Ledger.mem_applied_iff.mp hg
    have hfa := Path.same_iff.mp (same_of_mem_fileLedger hpending ha hf)
    have hgb := Path.same_iff.mp (same_of_mem_fileLedger hpending hb hg)
    have hab : a.1.components = b.1.components :=
      hfa.symm.trans ((Path.same_iff.mp hfile).trans hgb)
    exact absurd (Path.same_iff.mpr hab) (Path.not_same_of_lt hlt)

/-- A fix that is skipped overlaps an applied one of its file. -/
theorem exists_not_apart_of_skipped (hpending : p.pending = .group PendingFix.file fixes)
    (hentry : entry ∈ p.pending) (h : (f, .skipped) ∈ p.fileLedger c entry) :
    ∃ g ∈ p.applied c, ¬ g.Apart f := by
  obtain ⟨g, hg, hoverlap⟩ := exists_overlaps_of_mem_fileLedger h
  refine ⟨g, ?_, fun hapart => ?_⟩
  · rw [applied, ledger, Ledger.applied_flatMap]
    exact List.mem_flatMap.mpr ⟨entry, hentry, hg⟩
  · obtain ⟨_, hg⟩ := Ledger.mem_applied_iff.mp hg
    have hfile : g.file.same f.file = true := Path.same_iff.mpr
      ((Path.same_iff.mp (same_of_mem_fileLedger hpending hentry hg)).trans
        (Path.same_iff.mp (same_of_mem_fileLedger hpending hentry h)).symm)
    rw [hapart hfile] at hoverlap
    cases hoverlap

/-- If just those that are applied are listed, no two fixes on the list overlap. -/
theorem pairwise_of_perm_applied {listed : List PendingFix}
    (hpending : p.pending = .group PendingFix.file fixes) (h : listed.Perm (p.applied c)) :
    listed.Pairwise PendingFix.Apart :=
  (h.pairwise_iff fun h => h.symm).mpr (pairwise_applied hpending c)

/-- If a fix is left out only for one that it overlaps, then nothing is left out where no fixes
overlap. -/
theorem perm_applied_of_pairwise {listed : List PendingFix}
    (hperm : listed.Perm (p.applied c ++ p.leftOut c))
    (hleft : ∀ f ∈ p.leftOut c, ∃ g ∈ p.applied c, ¬ g.Apart f)
    (h : listed.Pairwise PendingFix.Apart) : listed.Perm (p.applied c) := by
  have hapart := (hperm.pairwise_iff fun h => h.symm).mp h
  have hnone : p.leftOut c = [] := by
    refine List.eq_nil_iff_forall_not_mem.mpr fun f hf => ?_
    obtain ⟨g, hg, hoverlap⟩ := hleft f hf
    exact hoverlap ((List.pairwise_append.mp hapart).2.2 g hg f hf)
  rwa [hnone, List.append_nil] at hperm

/-! ### Fixes of what the built-in analyzers report -/

/-- No fix fails that is for something flagged in a well-formed unit. -/
theorem isFailed_eq_false (hready : ReadyEntry c entry u) {e : PendingFix × Fate}
    (he : e ∈ p.fileLedger c entry) : e.2.isFailed = false := by
  rw [fileLedger, hready.unit_eq] at he
  rcases List.mem_append.mp he with he | he
  · obtain ⟨f, -, rfl⟩ := List.mem_map.mp he
    rfl
  · have hfixes : (fixUnit entry.1 u.tree (entry.2.filter p.accepts) {}).Fixes u.tree _ :=
      fixes_fixUnit hready.wellFormed
        (fun fix hfix => hready.ready fix (List.mem_filter.mp hfix).1) rfl
    have hcount := (books_fixUnit entry.1 u.tree (entry.2.filter p.accepts) {}).counts.failed_eq
    rw [hfixes.failed_eq, Nat.zero_add, eq_comm, List.countP_eq_zero] at hcount
    exact Bool.not_eq_true _ ▸ hcount e he

/-- What is let through and not applied overlaps what is applied. -/
theorem exists_not_apart_of_mem_leftOut (hpending : p.pending = .group PendingFix.file fixes)
    (hready : ∀ entry ∈ p.pending, ∃ u, ReadyEntry c entry u) (hf : f ∈ p.leftOut c) :
    ∃ g ∈ p.applied c, ¬ g.Apart f := by
  obtain ⟨⟨f', fate⟩, he, rfl⟩ := List.mem_map.mp hf
  obtain ⟨he, hleft⟩ := List.mem_filter.mp he
  obtain ⟨entry, hentry, hmem⟩ := mem_ledger_iff.mp he
  obtain ⟨u, hu⟩ := hready entry hentry
  have hfailed := isFailed_eq_false hu hmem
  have haccepts := accepts_iff_of_mem_fileLedger hmem
  rw [Bool.and_eq_true, haccepts] at hleft
  cases fate with
  | applied tree => cases hleft.2
  | failed e => cases hfailed
  | homeless => cases hfailed
  | refused => exact absurd rfl hleft.1
  | skipped => exact exists_not_apart_of_skipped hpending hentry hmem

/-! ### The preview of a run -/

open CommandLine

variable {e : Engine} {ds : List Diagnostic}

theorem pending_planFor (risky diff showOnly : Bool) :
    (planFor risky diff showOnly).pending = [] := by
  cases risky <;> cases diff <;> cases showOnly <;> rfl

/-- What a plan collects does not depend on what it does with it. -/
theorem pending_collect_planFor (ds : List Diagnostic) (risky diff showOnly : Bool) :
    ((planFor risky diff showOnly).collect ds).pending
      = .group PendingFix.file (ds.filterMap ({} : FixPlan).pendingFix?) := by
  rw [collect_eq (pending_planFor risky diff showOnly)]
  cases risky <;> cases diff <;> cases showOnly <;> rfl

/-- What a plan lets through depends on the choice about risky fixes only. -/
theorem accepts_collect_planFor (ds : List Diagnostic) (risky diff showOnly : Bool) :
    ((planFor risky diff showOnly).collect ds).accepts
      = fun f => risky || f.safety == .safe := by
  rw [collect_eq (pending_planFor risky diff showOnly)]
  cases risky <;> cases diff <;> cases showOnly <;> rfl

theorem mode_collect_planFor (ds : List Diagnostic) (risky diff : Bool) :
    ((planFor risky diff false).collect ds).mode ≠ .showOnly := by
  rw [collect_eq (pending_planFor risky diff false)]
  cases risky <;> cases diff <;> exact FixMode.noConfusion

/-- The fixes that a preview lists for diagnostics. -/
def preview (risky : Bool) (ds : List Diagnostic) : List PendingFix :=
  ((planFor risky false true).collect ds).pendingFixes

theorem preview_perm (risky diff : Bool) (ds : List Diagnostic) (c : Compilation) :
    (preview risky ds).Perm (((planFor risky diff false).collect ds).applied c
      ++ ((planFor risky diff false).collect ds).leftOut c) := by
  refine pendingFixes_perm ?_ ?_ c
  · rw [pending_collect_planFor, pending_collect_planFor]
  · rw [accepts_collect_planFor, accepts_collect_planFor]

/-- If a preview lists just what is applied, no two fixes on the list overlap. -/
theorem pairwise_preview {risky diff : Bool}
    (h : (preview risky ds).Perm (((planFor risky diff false).collect ds).applied c)) :
    (preview risky ds).Pairwise PendingFix.Apart :=
  pairwise_of_perm_applied (pending_collect_planFor ds risky diff false) h

/-- **A preview lists what is applied, and what overlaps it.**  For diagnostics that the built-in
analyzers report, where no two units have the same path and all switch statements are made up as
they should be, the list is made up of the fixes that are applied and of those left out, which
overlap one that is applied.  It is just what is applied if and only if no two fixes on it
overlap. -/
theorem preview_perm_applied_iff (he : e.analyzers = builtinAnalyzers)
    (hc : c.units.Pairwise fun u v => u.path.same v.path = false)
    (ht : ∀ u ∈ c.units, u.tree.top.WellFormedSwitches)
    (hds : ∀ d ∈ ds, d ∈ (e.analyze c).diagnostics) (risky diff : Bool) :
    let plan := (planFor risky diff false).collect ds
    (plan.apply c).tally.applied = (plan.applied c).length ∧
      (preview risky ds).Perm (plan.applied c ++ plan.leftOut c) ∧
      (∀ f ∈ plan.leftOut c, ∃ g ∈ plan.applied c, ¬ g.Apart f) ∧
      ((preview risky ds).Perm (plan.applied c)
        ↔ (preview risky ds).Pairwise PendingFix.Apart) := by
  intro plan
  have hpending : plan.pending = _ := pending_collect_planFor ds risky diff false
  have hleft : ∀ f ∈ plan.leftOut c, ∃ g ∈ plan.applied c, ¬ g.Apart f := by
    intro f hf
    refine exists_not_apart_of_mem_leftOut hpending (fun entry hentry => ?_) hf
    obtain ⟨u, -, -, hready⟩ := exists_readyEntry_of_founded rfl
      (fun d hd => Engine.founded_of_mem_diagnostics he (hds d hd)) hc ht (hpending ▸ hentry)
    exact ⟨u, hready⟩
  have hperm := preview_perm risky diff ds c
  exact ⟨length_applied (mode_collect_planFor ds risky diff) c, hperm, hleft, pairwise_preview,
    perm_applied_of_pairwise hperm hleft⟩

theorem preview_perm_applied_notifyingClass :
    plainEngine.analyzers = builtinAnalyzers ∧
      notifyingClass.units.Pairwise (fun u v => u.path.same v.path = false) ∧
      (∀ u ∈ notifyingClass.units, u.tree.top.WellFormedSwitches) ∧
      let ds := (plainEngine.analyze notifyingClass).diagnostics
      (preview true ds).length = 2 ∧
        (preview true ds).Perm (((planFor true false false).collect ds).applied notifyingClass) := by
  have hc : notifyingClass.units.Pairwise (fun u v => u.path.same v.path = false) :=
    List.pairwise_singleton _ _
  have ht : ∀ u ∈ notifyingClass.units, u.tree.top.WellFormedSwitches := by
    intro u hu
    rw [List.mem_singleton.mp hu]
    exact wellFormedSwitches_notifyingSwitch
  have hspans : (preview true (plainEngine.analyze notifyingClass).diagnostics).map (·.span)
      = [⟨7, 8⟩, ⟨37, 42⟩] := by
    rw [Engine.diagnostics_analyze_eq_insertionSort, preview, pendingFixes,
      List.mergeSort_of_pairwise]
    · decide +kernel
    · decide +kernel
  have hapart : (preview true (plainEngine.analyze notifyingClass).diagnostics).Pairwise
      PendingFix.Apart := by
    have hpair : [Span.mk 7 8, ⟨37, 42⟩].Pairwise fun s s' => s.overlaps s' = false := by decide
    rw [← hspans, List.pairwise_map] at hpair
    refine hpair.imp ?_
    exact fun h _ => h
  have he : plainEngine.analyzers = builtinAnalyzers := rfl
  obtain ⟨-, -, -, hiff⟩ := preview_perm_applied_iff he hc ht (fun _ hd => hd) true false
  refine ⟨he, hc, ht, ?_, hiff.mpr hapart⟩
  rw [← List.length_map (·.span), hspans]
  rfl

/-- A class with a switch over `OnPropertyChanged("hue")`. -/
def switchOverCall : Tree :=
  ⟨#[⟨.classDeclaration, [1], none⟩, ⟨.switchStatement, [2, 3, 4, 5, 6], none⟩,
      ⟨.switchKeyword, [], some ⟨"switch", ""⟩⟩, ⟨.invocationExpression, [7, 8], none⟩,
      ⟨.openBraceToken, [], some ⟨"\x7b", ""⟩⟩, ⟨.switchSection, [9, 10], none⟩,
      ⟨.closeBraceToken, [], some ⟨"\x7d", "\n"⟩⟩, ⟨.identifierName, [11], none⟩,
      ⟨.argumentList, [12, 13, 14], none⟩, ⟨.defaultSwitchLabel, [15, 16], none⟩,
      ⟨.breakStatement, [17, 18], none⟩,
      ⟨.identifierToken, [], some ⟨"OnPropertyChanged", " "⟩⟩,
      ⟨.openParenToken, [], some ⟨"(", ""⟩⟩, ⟨.argument, [19], none⟩,
      ⟨.closeParenToken, [], some ⟨")", ""⟩⟩, ⟨.defaultKeyword, [], some ⟨"default", "\n"⟩⟩,
      ⟨.colonToken, [], some ⟨":", ""⟩⟩, ⟨.breakKeyword, [], some ⟨"break", " "⟩⟩,
      ⟨.semicolonToken, [], some ⟨";", ""⟩⟩, ⟨.literalExpression, [20], none⟩,
      ⟨.stringLiteralToken, [], some ⟨"\"hue\"", ""⟩⟩],
    0, #[none, some 0, some 1, some 1, some 1, some 1, some 1, some 3, some 3, some 5, some 5,
      some 7, some 8, some 8, some 8, some 9, some 9, some 10, some 10, some 13, some 19], _, rfl,
      rfl⟩

/-- The class, bound as the other one is; what is switched over is of the enum. -/
def switchingClass : Compilation where
  symbols := notifyingClass.symbols
  units := notifyingClass.units.map fun u => { u with tree := switchOverCall }

/-- A preview can list a fix that is not applied. -/
theorem not_preview_perm_applied :
    ¬ ∀ (e : Engine) (c : Compilation) (ds : List Diagnostic) (risky diff : Bool),
      e.analyzers = builtinAnalyzers → (∀ d ∈ ds, d ∈ (e.analyze c).diagnostics) →
      (preview risky ds).Perm (((planFor risky diff false).collect ds).applied c) := by
  intro h
  have hperm := h plainEngine switchingClass _ true false rfl fun _ hd => hd
  have hlisted : (preview true (plainEngine.analyze switchingClass).diagnostics).map
      (fun f => (f.file, f.span)) = [(⟨"a.cs"⟩, ⟨7, 31⟩), (⟨"a.cs"⟩, ⟨25, 30⟩)] := by
    rw [Engine.diagnostics_analyze_eq_insertionSort, preview, pendingFixes,
      List.mergeSort_of_pairwise]
    · decide +kernel
    · decide +kernel
  obtain ⟨f, fs, hf, hfirst, hrest⟩ := List.map_eq_cons_iff.mp hlisted
  obtain ⟨g, hg, hsecond⟩ := List.map_eq_singleton_iff.mp hrest
  have hapart := pairwise_preview hperm
  rw [hf, hg, List.pairwise_pair, PendingFix.Apart, (Prod.mk.inj hfirst).1, (Prod.mk.inj hfirst).2,
    (Prod.mk.inj hsecond).1, (Prod.mk.inj hsecond).2] at hapart
  exact absurd (hapart rfl) (by decide)

end FixPlan

end TreeLint
