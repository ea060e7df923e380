/-
TreeLint/Proofs/Fix/Accounting.lean

The books of a plan, for any providers.

Every pending fix is counted once, as applied, failed or skipped, in every mode
(`FixPlan.Balances`): each step of applying a plan counts just the fixes that it
is about.

In a unit, each fix is tried on the tree that the applied ones before it have
made, and nothing else changes that tree (`Ledger.Follows`).  So the tree that
comes out is what the applied fixes make of the original tree, one after the
other, and a unit changes exactly if a fix has been applied to it
(`FixPlan.Repairs`).
-/
import TreeLint.Proofs.Fix.Preview

namespace TreeLint

/-! ### Counting -/

namespace FixPlan

/-- Of a number of fixes, each has been counted once: the applied ones are counted as safe or risky,
and as risky only if risky fixes are let through. -/
structure Balances (p : FixPlan) (count : Nat) (t : FixTally) : Prop where
  total_eq : t.applied + t.failed + t.skipped = count
  split_eq : t.appliedSafe + t.appliedRisky = t.applied
  allowed : t.appliedRisky ≠ 0 → p.mode = .all ∨ p.includeRisky = true

variable {p : FixPlan} {count : Nat} {t : FixTally} {f : PendingFix}

/-- A risky fix is let through only if that is asked for. -/
theorem allowed_of_accepts (h : p.accepts f = true) (hf : f.safety = .risky) :
    p.mode = .all ∨ p.includeRisky = true := by
  rw [accepts, hf] at h
  cases hmode : p.mode with
  | all => exact .inl rfl
  | safeOnly => simp [hmode] at h
  | diff | showOnly =>
    rw [hmode] at h
    exact .inr ((Bool.or_false _).symm.trans h)

namespace Balances

theorem empty (p : FixPlan) : p.Balances 0 {} := ⟨rfl, rfl, fun h => absurd rfl h⟩

theorem skip (h : p.Balances count t) (k : Nat) : p.Balances (count + k) (t.skip k) where
  total_eq := by
    rw [← h.total_eq]
    exact (Nat.add_assoc _ _ _).symm
  split_eq := h.split_eq
  allowed := h.allowed

theorem fail (h : p.Balances count t) (k : Nat) (error : String) :
    p.Balances (count + k) (t.fail k error) where
  total_eq := by
    rw [← h.total_eq, FixTally.fail]
    simp only
    omega
  split_eq := h.split_eq
  allowed := h.allowed

theorem countApplied (h : p.Balances count t) (hf : p.accepts f = true) :
    p.Balances (count + 1) (t.countApplied f.safety) := by
  have htotal := h.total_eq
  have hsplit := h.split_eq
  cases hsafety : f.safety with
  | safe =>
    refine ⟨?_, ?_, h.allowed⟩ <;> simp only [FixTally.countApplied] <;> omega
  | risky =>
    refine ⟨?_, ?_, fun _ => allowed_of_accepts hf hsafety⟩ <;>
      simp only [FixTally.countApplied] <;> omega

/-- Trying a fix counts it. -/
theorem tryFix {a : Attempt} (h : p.Balances count a.tally) (hf : p.accepts f = true)
    (file : Path) (tree : Tree) : p.Balances (count + 1) (FixPlan.tryFix file tree a f).tally := by
  rw [FixPlan.tryFix]
  split
  · exact h.skip 1
  · split
    · exact h.countApplied hf
    · exact h.fail 1 _

/-- Counting fixes one by one counts them all. -/
theorem foldl {σ : Type} (tally : σ → FixTally) {step : σ → PendingFix → σ}
    (hstep : ∀ s count f, p.accepts f = true → p.Balances count (tally s) →
      p.Balances (count + 1) (tally (step s f))) {fixes : List PendingFix}
    (hfixes : ∀ f ∈ fixes, p.accepts f = true) {s : σ} (h : p.Balances count (tally s)) :
    p.Balances (count + fixes.length) (tally (fixes.foldl step s)) := by
  induction fixes generalizing s count with
  | nil => exact h
  | cons f fixes ih =>
    have hrest := ih (fun g hg => hfixes g (List.mem_cons_of_mem f hg))
      (hstep s count f (hfixes f List.mem_cons_self) h)
    rw [List.length_cons, Nat.add_comm fixes.length, ← Nat.add_assoc]
    exact hrest

/-- Trying the fixes of a unit counts them. -/
theorem fixUnit (h : p.Balances count t) {fixes : List PendingFix}
    (hfixes : ∀ f ∈ fixes, p.accepts f = true) (file : Path) (tree : Tree) :
    p.Balances (count + fixes.length) (FixPlan.fixUnit file tree fixes t).tally := by
  have hlength : (fixes.mergeSort PendingFix.isNoLater).length = fixes.length :=
    List.length_mergeSort fixes
  rw [← hlength]
  have hstart : p.Balances count ({ tally := t } : Attempt).tally := h
  exact foldl Attempt.tally (fun _ _ _ hf ha => ha.tryFix hf file tree)
    (fun f hf => hfixes f (List.mem_mergeSort.mp hf)) hstart

/-- Applying the fixes of a file counts them. -/
theorem applyFile {r : FixOutcome} (h : p.Balances count r.tally) (c : Compilation)
    (entry : Path × List PendingFix) :
    p.Balances (count + entry.2.length) (p.applyFile c r entry).tally := by
  obtain ⟨file, fixes⟩ := entry
  have haccepted : ∀ f ∈ fixes.filter p.accepts, p.accepts f = true :=
    fun f hf => (List.mem_filter.mp hf).2
  have hlength : count + fixes.length = count + (fixes.length - (fixes.filter p.accepts).length)
      + (fixes.filter p.accepts).length := by
    have hle := List.length_filter_le p.accepts fixes
    omega
  have hskipped := h.skip (fixes.length - (fixes.filter p.accepts).length)
  simp only [FixPlan.applyFile, hlength]
  split
  · exact foldl id (fun _ _ _ hf ht => ht.countApplied hf) haccepted hskipped
  · rcases c.unit? file with - | u
    · exact hskipped.fail _ _
    · have hunit := hskipped.fixUnit haccepted file u.tree
      dsimp only
      split <;> exact hunit

/-- Applying a plan counts every pending fix. -/
theorem apply (p : FixPlan) (c : Compilation) : p.Balances p.pendingCount (p.apply c).tally := by
  have hfold : ∀ (entries : PathMap (List PendingFix)) (count : Nat) (r : FixOutcome),
      p.Balances count r.tally → p.Balances (count + (entries.flatMap (·.2)).length)
        (entries.foldl (p.applyFile c) r).tally := by
    intro entries
    induction entries with
    | nil => exact fun _ _ h => h
    | cons entry entries ih =>
      intro count r h
      rw [List.flatMap_cons, List.length_append, ← Nat.add_assoc]
      exact ih _ _ (h.applyFile c entry)
  have hall := hfold p.pending 0 {} (.empty p)
  rw [Nat.zero_add] at hall
  exact hall

end Balances

end FixPlan

/-! ### What a unit goes through -/

/-- The tree that fixes make, one after the other, unless one of them fails. -/
def Tree.amend (tree : Tree) (fixes : List PendingFix) : Except FixError Tree :=
  fixes.foldlM (fun t f => f.provider.fix t f.diagnostic) tree

/-- The ledger of fixes that are tried on a tree back to front.  Each meets the tree that the applied
ones before it have made; it is applied if it does not overlap one of them and does not fail. -/
structure Ledger.Follows (tree : Tree) (l : Ledger) : Prop where
  ordered : (l.map (·.1)).Pairwise fun f g =>
    g.span.start < f.span.start ∨ f.span.start = g.span.start ∧ g.span.stop ≤ f.span.stop
  apart : l.applied.Pairwise fun f g => f.span.overlaps g.span = false
  entry : ∀ (before : Ledger) f fate after, l = before ++ (f, fate) :: after →
    ∃ seen, tree.amend before.applied = .ok seen ∧ fate = FixPlan.fate seen before.spans f

namespace FixPlan

variable {tree : Tree} {spans : List Span} {fix : PendingFix} {fixes : List PendingFix}

theorem amend_cons {fixed : Tree} (h : fix.provider.fix tree fix.diagnostic = .ok fixed) :
    tree.amend (fix :: fixes) = fixed.amend fixes := by
  rw [Tree.amend, List.foldlM_cons, h]
  rfl

/-- A fix that is applied makes the tree that its entry names. -/
theorem amend_applied_cons (l : Ledger) :
    tree.amend (Ledger.applied ((fix, fate tree spans fix) :: l))
      = ((fate tree spans fix).tree?.getD tree).amend l.applied := by
  cases hfate : fate tree spans fix with
  | failed | skipped | refused | homeless => rfl
  | applied fixed =>
    refine amend_cons ?_
    rw [fate] at hfate
    split at hfate
    · cases hfate
    · split at hfate
      · rename_i h
        exact h.trans (congrArg _ (Fate.applied.inj hfate))
      · cases hfate

/-- Each fix meets what the applied ones before it have made. -/
theorem exists_amend_eq_of_fates_eq {before after : Ledger} {f : PendingFix} {outcome : Fate}
    (h : fates tree spans fixes = before ++ (f, outcome) :: after) :
    ∃ seen, tree.amend before.applied = .ok seen ∧
      outcome = fate seen (spans ++ before.spans) f := by
  induction fixes generalizing tree spans before with
  | nil => exact absurd h (List.append_ne_nil_of_right_ne_nil _ (List.cons_ne_nil _ _)).symm
  | cons fix fixes ih =>
    rw [fates] at h
    cases before with
    | nil =>
      obtain ⟨hentry, -⟩ := List.cons_eq_cons.mp h
      obtain ⟨rfl, rfl⟩ := Prod.mk.inj hentry
      exact ⟨tree, rfl, by rw [show Ledger.spans [] = [] from rfl, List.append_nil]⟩
    | cons e before =>
      rw [List.cons_append] at h
      obtain ⟨rfl, hrest⟩ := List.cons_eq_cons.mp h
      obtain ⟨seen, hseen, hfate⟩ := ih hrest
      refine ⟨seen, (amend_applied_cons before).trans hseen, ?_⟩
      rw [hfate, List.append_assoc, ← Ledger.spans_append]
      rfl

/-- The applied fixes make the last tree that has been entered. -/
theorem amend_applied_fates (tree : Tree) (spans : List Span) (fixes : List PendingFix) :
    tree.amend (fates tree spans fixes).applied
      = .ok ((fates tree spans fixes).latest?.getD tree) := by
  induction fixes generalizing tree spans with
  | nil => rfl
  | cons fix fixes ih =>
    rw [fates_cons, Ledger.latest?_append, List.singleton_append, amend_applied_cons, ih]
    rcases Ledger.latest? (fates _ _ fixes) with - | T
    · cases fate tree spans fix <;> rfl
    · rfl

/-- There is a last tree if a fix has been applied. -/
theorem isSome_latest?_iff (l : Ledger) : l.latest?.isSome = true ↔ l.applied ≠ [] := by
  have hone : ∀ fate : Fate, fate.tree? = none ↔ ¬ fate.isApplied = true := by
    intro fate
    cases fate with
    | applied => exact iff_of_false (Option.some_ne_none _) fun h => h rfl
    | failed | skipped | refused | homeless => exact iff_of_true rfl Bool.false_ne_true
  rw [Ledger.latest?, List.getLast?_isSome, Ne, List.filterMap_eq_nil_iff, Ne, Ledger.applied,
    List.map_eq_nil_iff, List.filter_eq_nil_iff]
  simp only [hone]

/-- The ledger of a unit follows its tree. -/
theorem follows_unitLedger (tree : Tree) (fixes : List PendingFix) :
    (unitLedger tree fixes).Follows tree where
  ordered := by
    rw [unitLedger, map_fst_fates]
    have hsorted := Diagnostic.pairwise_isFurtherBack (fixes.map (·.diagnostic))
    rw [← map_mergeSort_isNoLater, List.pairwise_map] at hsorted
    exact hsorted.imp Diagnostic.isFurtherBack_iff.mp
  apart := (applied_fates_apart tree [] _).2
  entry _ _ _ _ h := by
    obtain ⟨seen, hseen, hfate⟩ := exists_amend_eq_of_fates_eq h
    exact ⟨seen, hseen, hfate⟩

/-! ### Whole plans -/

variable {p : FixPlan} {c : Compilation}

/-- The tree that the fixes of an entry make of its unit, if any is applied. -/
def repaired? (p : FixPlan) (c : Compilation) (entry : Path × List PendingFix) : Option Tree :=
  if p.mode = .showOnly then none
  else (c.unit? entry.1).bind fun u => (unitLedger u.tree (entry.2.filter p.accepts)).latest?

/-- The outcome lists these units as changed, with their new trees. -/
structure Lists (p : FixPlan) (fixed : PathMap Tree) (r : FixOutcome) : Prop where
  fixed_eq : r.fixed = fixed
  unitsModified_eq : r.unitsModified = fixed.length
  diffs_eq : r.diffs.map (·.1) = if p.mode = .diff then fixed.map (·.1) else []

variable {fixed : PathMap Tree} {r : FixOutcome}

theorem Lists.recordUnit (h : p.Lists fixed r) (file : Path) (old new : Tree) (tally : FixTally) :
    p.Lists (fixed ++ [(file, new)]) (p.recordUnit file old new { r with tally }) where
  fixed_eq := congrArg (· ++ [(file, new)]) h.fixed_eq
  unitsModified_eq := by
    rw [List.length_append, ← h.unitsModified_eq]
    rfl
  diffs_eq := by
    have hdiffs := h.diffs_eq
    rw [FixPlan.recordUnit]
    by_cases hmode : p.mode = .diff
    · rw [if_pos hmode] at hdiffs ⊢
      simp only [hmode, beq_self_eq_true, if_true, List.map_append, hdiffs]
      rfl
    · rw [if_neg hmode] at hdiffs ⊢
      simp only [beq_eq_false_iff_ne.mpr hmode, Bool.false_eq_true, if_false, hdiffs]

/-- Applying the fixes of a file lists its unit, if any is applied. -/
theorem Lists.applyFile (h : p.Lists fixed r) (c : Compilation)
    (entry : Path × List PendingFix) :
    p.Lists (fixed ++ ((p.repaired? c entry).map (entry.1, ·)).toList)
      (p.applyFile c r entry) := by
  obtain ⟨file, fixes⟩ := entry
  have hsame : ∀ tally, p.Lists (fixed ++ []) { r with tally } := by
    intro tally
    rw [List.append_nil]
    exact ⟨h.fixed_eq, h.unitsModified_eq, h.diffs_eq⟩
  rw [repaired?]
  simp only [FixPlan.applyFile, beq_iff_eq]
  split
  · exact hsame _
  · rcases c.unit? file with - | u
    · exact hsame _
    · have hcurrent := (books_fixUnit file u.tree (fixes.filter p.accepts)
        (r.tally.skip (fixes.length - (fixes.filter p.accepts).length))).current_eq
      rw [Option.bind_some]
      dsimp only
      rw [hcurrent]
      rcases (unitLedger u.tree (fixes.filter p.accepts)).latest? with - | T
      · exact hsame _
      · exact h.recordUnit file u.tree T _

/-- Applying a plan lists the units in which a fix is applied. -/
theorem Lists.apply (p : FixPlan) (c : Compilation) :
    p.Lists (p.pending.filterMap fun entry => (p.repaired? c entry).map (entry.1, ·))
      (p.apply c) := by
  have hfold : ∀ (entries : PathMap (List PendingFix)) (fixed : PathMap Tree) (r : FixOutcome),
      p.Lists fixed r →
      p.Lists (fixed ++ entries.filterMap fun entry => (p.repaired? c entry).map (entry.1, ·))
        (entries.foldl (p.applyFile c) r) := by
    intro entries
    induction entries with
    | nil =>
      intro fixed r h
      rw [List.filterMap_nil, List.append_nil]
      exact h
    | cons entry entries ih =>
      intro fixed r h
      have hrest := ih _ _ (h.applyFile c entry)
      rw [List.append_assoc] at hrest
      rw [List.filterMap_cons]
      cases hfixed : (p.repaired? c entry).map (entry.1, ·) <;> rwa [hfixed] at hrest
  have hempty : p.Lists [] {} := ⟨rfl, rfl, by split <;> rfl⟩
  exact hfold p.pending [] {} hempty

/-! ### What comes of a unit -/

/-- The fixes for a path that are let through. -/
def triedOn (p : FixPlan) (fixes : List PendingFix) (path : Path) : List PendingFix :=
  (fixes.filter (·.file.same path)).filter p.accepts

/-- The ledger says what has become of the fixes for a path: the unit has changed if one of them has
been applied, and it is what the applied ones make of its tree. -/
structure Repairs (p : FixPlan) (c : Compilation) (fixes : List PendingFix) (path : Path)
    (tree : Tree) (l : Ledger) (fixed : Option Tree) : Prop where
  tried : (l.map (·.1)).Perm (p.triedOn fixes path)
  follows : l.Follows tree
  applied_eq : l.applied = (p.applied c).filter (·.file.same path)
  isSome_iff : fixed.isSome = true ↔ l.applied ≠ []
  amend_eq : ∀ T, fixed = some T → tree.amend l.applied = .ok T

variable {path : Path} {entry : Path × List PendingFix}

theorem unit?_eq_of_same (c : Compilation) {file path : Path} (h : file.same path = true) :
    c.unit? file = c.unit? path :=
  congrArg c.units.find? (funext fun u => Path.same_eq_of_same_right h u.path)

theorem triedOn_of_find?_eq_some (hpending : p.pending = .group PendingFix.file fixes)
    (h : p.pending.find? (·.1.same path) = some entry) :
    entry.1.same path = true ∧ entry.2.filter p.accepts = p.triedOn fixes path := by
  have hsame := List.find?_some h
  refine ⟨hsame, ?_⟩
  rw [(PathMap.of_mem_group (hpending ▸ List.mem_of_find?_eq_some h)).1, triedOn]
  exact congrArg (List.filter p.accepts)
    (List.filter_congr fun f _ => Path.same_eq_of_same_right hsame f.file)

theorem triedOn_of_find?_eq_none (hpending : p.pending = .group PendingFix.file fixes)
    (h : p.pending.find? (·.1.same path) = none) : p.triedOn fixes path = [] := by
  have hget : (PathMap.group PendingFix.file fixes).get? path = none := by
    rw [← hpending, PathMap.get?, h]
    rfl
  rw [PathMap.get?_group, Option.filter_eq_none_iff] at hget
  have hempty := hget _ rfl
  rw [Bool.not_eq_true, Bool.not_eq_false', List.isEmpty_iff] at hempty
  rw [triedOn, hempty]
  rfl

theorem unitLedger_nil (tree : Tree) : unitLedger tree [] = [] := by
  rw [unitLedger, List.mergeSort_nil]
  rfl

/-- What is listed for a path is the last tree that the ledger of its unit enters. -/
theorem get?_fixed (hmode : p.mode ≠ .showOnly)
    (hpending : p.pending = .group PendingFix.file fixes) (c : Compilation) (path : Path) :
    (p.apply c).fixed.get? path
      = (c.unit? path).bind fun u => (unitLedger u.tree (p.triedOn fixes path)).latest? := by
  have hsorted : p.pending.Sorted := hpending ▸ PathMap.sorted_group _ _
  rw [(Lists.apply p c).fixed_eq, hsorted.get?_filterMap]
  rcases h : p.pending.find? (·.1.same path) with - | entry
  · rw [h, triedOn_of_find?_eq_none hpending h]
    cases c.unit? path with
    | none => rfl
    | some u =>
      rw [Option.bind_some, unitLedger_nil]
      rfl
  · obtain ⟨hsame, htried⟩ := triedOn_of_find?_eq_some hpending h
    rw [h, Option.bind_some, repaired?, if_neg hmode, htried, unit?_eq_of_same c hsame]

theorem applied_fileLedger (p : FixPlan) (c : Compilation) (entry : Path × List PendingFix) :
    Ledger.applied (p.fileLedger c entry)
      = ((c.unit? entry.1).map fun u =>
          (unitLedger u.tree (entry.2.filter p.accepts)).applied).getD [] := by
  have hrefused : Fate.refused.isApplied = false := rfl
  have hhomeless : Fate.homeless.isApplied = false := rfl
  rw [fileLedger, Ledger.applied_append, Ledger.applied_map_eq_nil hrefused, List.nil_append]
  cases c.unit? entry.1 with
  | none => exact Ledger.applied_map_eq_nil hhomeless _
  | some u => rfl

/-- The fixes that are applied for a path are those of the ledger of its unit. -/
theorem filter_applied (hpending : p.pending = .group PendingFix.file fixes) (c : Compilation)
    (path : Path) :
    (p.applied c).filter (·.file.same path)
      = ((c.unit? path).map fun u =>
          (unitLedger u.tree (p.triedOn fixes path)).applied).getD [] := by
  have hsorted : p.pending.Sorted := hpending ▸ PathMap.sorted_group _ _
  have hkey : ∀ entry ∈ p.pending, ∀ f ∈ Ledger.applied (p.fileLedger c entry),
      f.file.same entry.1 = true := by
    intro entry hentry f hf
    obtain ⟨_, hf⟩ := Ledger.mem_applied_iff.mp hf
    have hsame := same_of_mem_fileLedger hpending hentry hf
    exact hsame
  rw [applied, ledger, Ledger.applied_flatMap, hsorted.filter_flatMap hkey]
  rcases h : p.pending.find? (·.1.same path) with - | entry
  · rw [h, triedOn_of_find?_eq_none hpending h]
    cases c.unit? path with
    | none => rfl
    | some u =>
      rw [Option.map_some, Option.getD_some, unitLedger_nil]
      rfl
  · obtain ⟨hsame, htried⟩ := triedOn_of_find?_eq_some hpending h
    rw [h, Option.map_some, Option.getD_some, applied_fileLedger, htried,
      unit?_eq_of_same c hsame]

/-- The ledger of a unit says what has become of the fixes for its path. -/
theorem repairs_unitLedger (hmode : p.mode ≠ .showOnly)
    (hpending : p.pending = .group PendingFix.file fixes) {u : SourceUnit}
    (hunit : c.unit? path = some u) :
    p.Repairs c fixes path u.tree (unitLedger u.tree (p.triedOn fixes path))
      ((p.apply c).fixed.get? path) := by
  have hget := get?_fixed hmode hpending c path
  have happlied := filter_applied hpending c path
  rw [hunit] at hget happlied
  rw [Option.bind_some] at hget
  refine ⟨?_, follows_unitLedger _ _, happlied.symm, ?_, fun T hT => ?_⟩
  · rw [unitLedger, map_fst_fates]
    exact List.mergeSort_perm _ _
  · rw [hget]
    exact isSome_latest?_iff _
  · rw [unitLedger, amend_applied_fates, ← unitLedger, ← hget, hT]
    rfl

/-! ### The books -/

/-- The books of a plan with these pending fixes: every fix is counted, every changed unit is
listed once, and each unit is what the fixes applied to it make of its tree. -/
structure Accounts (p : FixPlan) (fixes : List PendingFix) (c : Compilation) (r : FixOutcome) :
    Prop where
  pendingCount_eq : p.pendingCount = fixes.length
  balances : p.Balances p.pendingCount r.tally
  unitsModified_eq : r.unitsModified = r.fixed.length
  sorted_fixed : r.fixed.Sorted
  diffs_eq : r.diffs.map (·.1) = if p.mode = .diff then r.fixed.map (·.1) else []
  fixed_eq_nil : p.mode = .showOnly → r.fixed = []
  applied_eq : p.mode ≠ .showOnly → r.tally.applied = (p.applied c).length
  homeless : p.mode ≠ .showOnly → ∀ path, c.unit? path = none →
    r.fixed.get? path = none ∧ (p.applied c).filter (·.file.same path) = []
  repairs : p.mode ≠ .showOnly → ∀ path u, c.unit? path = some u →
    ∃ l, p.Repairs c fixes path u.tree l (r.fixed.get? path)

/-- **Accounting.**  For any providers, diagnostics and settings, the outcome of a plan accounts for
the fix of every diagnostic that a provider serves. -/
theorem accounts_apply_collect (providers : List FixProvider) (mode : FixMode) (risky : Bool)
    (ds : List Diagnostic) (c : Compilation) :
    let start : FixPlan := { providers, mode, includeRisky := risky }
    let plan := start.collect ds
    plan.Accounts (ds.filterMap start.pendingFix?) c (plan.apply c) ∧ plan.mode = mode ∧
      plan.includeRisky = risky := by
  intro start plan
  have hplan : plan = { start with
      pending := .group PendingFix.file (ds.filterMap start.pendingFix?) } := collect_eq rfl ds
  have hpending : plan.pending = .group PendingFix.file (ds.filterMap start.pendingFix?) := by
    rw [hplan]
  have hlists := Lists.apply plan c
  have hsorted : plan.pending.Sorted := hpending ▸ PathMap.sorted_group _ _
  refine ⟨?_, by rw [hplan], by rw [hplan]⟩
  constructor
  case pendingCount_eq =>
    rw [pendingCount, hpending]
    exact (PathMap.flatMap_group_perm _ _).length_eq
  case balances => exact .apply plan c
  case unitsModified_eq => rw [hlists.unitsModified_eq, hlists.fixed_eq]
  case sorted_fixed =>
    rw [hlists.fixed_eq]
    exact hsorted.filterMap _
  case diffs_eq => rw [hlists.diffs_eq, hlists.fixed_eq]
  case fixed_eq_nil =>
    intro hmode
    rw [hlists.fixed_eq, List.filterMap_eq_nil_iff]
    intro entry _
    rw [repaired?, if_pos hmode]
    rfl
  case applied_eq => exact fun hmode => length_applied hmode c
  case homeless =>
    intro hmode path hunit
    rw [get?_fixed hmode hpending, filter_applied hpending, hunit]
    exact ⟨rfl, rfl⟩
  case repairs => exact fun hmode path u hunit => ⟨_, repairs_unitLedger hmode hpending hunit⟩

end FixPlan

end TreeLint
