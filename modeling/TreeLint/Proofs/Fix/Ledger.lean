/-
TreeLint/Proofs/Fix/Ledger.lean

What becomes of every fix.

Beside the loop over the fixes of a unit stands a ledger: every fix with its
fate, in the order in which they are tried (`FixPlan.fates`).  An applied fix is
entered with the tree that it has made, which the next one is tried on; a fix
that overlaps an applied one is skipped.  What the loop counts are the entries of
the ledger (`FixPlan.books_fixUnit`).

The ledger of a plan has an entry for every pending fix (`FixPlan.ledger`), and
the tally of the plan counts its entries (`FixPlan.counts_apply`).
-/
import Mathlib.Data.List.Perm.Basic
import TreeLint.Fix.Plan

namespace TreeLint

/-- What becomes of a fix: it is applied, with the tree that it makes, or fails; it is skipped for
one that it overlaps; it is not let through; or there is no unit for it. -/
inductive Fate where
  | applied (tree : Tree)
  | failed (error : FixError)
  | skipped
  | refused
  | homeless

namespace Fate

/-- The tree that has been made. -/
def tree? : Fate → Option Tree
  | applied tree => some tree
  | _ => none

/-- Whether the fate counts as an applied fix. -/
def isApplied : Fate → Bool
  | applied _ => true
  | _ => false

/-- Whether the fate counts as a failure. -/
def isFailed : Fate → Bool
  | failed _ | homeless => true
  | _ => false

/-- Whether the fate counts as a skipped fix. -/
def isSkipped : Fate → Bool
  | skipped | refused => true
  | _ => false

end Fate

/-- Fixes with their fates. -/
abbrev Ledger := List (PendingFix × Fate)

namespace Ledger

/-- The fixes that have been applied. -/
def applied (l : Ledger) : List PendingFix := (l.filter (·.2.isApplied)).map (·.1)

/-- The spans of the fixes that have been applied. -/
def spans (l : Ledger) : List Span := l.applied.map (·.span)

/-- The tree that the last applied fix has made. -/
def latest? (l : Ledger) : Option Tree := (l.filterMap (·.2.tree?)).getLast?

@[simp] theorem applied_append (l l' : Ledger) : applied (l ++ l') = applied l ++ applied l' := by
  rw [applied, List.filter_append, List.map_append]
  rfl

theorem spans_append (l l' : Ledger) : spans (l ++ l') = spans l ++ spans l' := by
  rw [spans, applied_append, List.map_append]
  rfl

theorem latest?_append (l l' : Ledger) : latest? (l ++ l') = (latest? l' <|> latest? l) := by
  rw [latest?, List.filterMap_append, List.getLast?_append]
  cases h : latest? l' with
  | none => rw [show (l'.filterMap (·.2.tree?)).getLast? = none from h]; rfl
  | some tree => rw [show (l'.filterMap (·.2.tree?)).getLast? = some tree from h]; rfl

theorem mem_applied_iff {l : Ledger} {f : PendingFix} :
    f ∈ l.applied ↔ ∃ tree, (f, .applied tree) ∈ l := by
  rw [applied, List.mem_map]
  constructor
  · rintro ⟨⟨g, fate⟩, hmem, rfl⟩
    obtain ⟨hmem, hfate⟩ := List.mem_filter.mp hmem
    cases fate with
    | applied tree => exact ⟨tree, hmem⟩
    | failed | skipped | refused | homeless => cases hfate
  · rintro ⟨tree, hmem⟩
    exact ⟨_, List.mem_filter.mpr ⟨hmem, rfl⟩, rfl⟩

theorem applied_map_eq_nil {fate : Fate} (h : fate.isApplied = false) (fixes : List PendingFix) :
    applied (fixes.map (·, fate)) = [] := by
  rw [applied, List.map_eq_nil_iff, List.filter_eq_nil_iff]
  intro e he
  obtain ⟨f, -, rfl⟩ := List.mem_map.mp he
  exact Bool.not_eq_true _ ▸ h

theorem applied_flatMap {α : Type} (xs : List α) (entries : α → Ledger) :
    applied (xs.flatMap entries) = xs.flatMap fun x => applied (entries x) := by
  rw [applied, List.filter_flatMap, List.map_flatMap]
  rfl

end Ledger

/-- The tally `t'` is `t` with the entries of a ledger counted. -/
structure FixTally.Counts (l : Ledger) (t t' : FixTally) : Prop where
  applied_eq : t'.applied = t.applied + l.countP (·.2.isApplied)
  failed_eq : t'.failed = t.failed + l.countP (·.2.isFailed)
  skipped_eq : t'.skipped = t.skipped + l.countP (·.2.isSkipped)

namespace FixTally.Counts

variable {l l' : Ledger} {t t' t'' : FixTally}

theorem nil (t : FixTally) : Counts [] t t := ⟨rfl, rfl, rfl⟩

theorem append (h : Counts l t t') (h' : Counts l' t' t'') : Counts (l ++ l') t t'' where
  applied_eq := by rw [h'.applied_eq, h.applied_eq, List.countP_append, Nat.add_assoc]
  failed_eq := by rw [h'.failed_eq, h.failed_eq, List.countP_append, Nat.add_assoc]
  skipped_eq := by rw [h'.skipped_eq, h.skipped_eq, List.countP_append, Nat.add_assoc]

theorem applied (t : FixTally) (f : PendingFix) (tree : Tree) :
    Counts [(f, .applied tree)] t (t.countApplied f.safety) := by
  cases hsafety : f.safety <;> exact ⟨rfl, rfl, rfl⟩

theorem failed (t : FixTally) (f : PendingFix) (e : FixError) (error : String) :
    Counts [(f, .failed e)] t (t.fail 1 error) := ⟨rfl, rfl, rfl⟩

theorem skipped (t : FixTally) (f : PendingFix) : Counts [(f, .skipped)] t (t.skip 1) :=
  ⟨rfl, rfl, rfl⟩

theorem refused (t : FixTally) (fixes : List PendingFix) :
    Counts (fixes.map (·, .refused)) t (t.skip fixes.length) := by
  constructor <;>
    simp [List.countP_map, Function.comp_def, FixTally.skip, Fate.isApplied, Fate.isFailed,
      Fate.isSkipped]

theorem homeless (t : FixTally) (fixes : List PendingFix) (error : String) :
    Counts (fixes.map (·, .homeless)) t (t.fail fixes.length error) := by
  constructor <;>
    simp [List.countP_map, Function.comp_def, FixTally.fail, Fate.isApplied, Fate.isFailed,
      Fate.isSkipped]

end FixTally.Counts

namespace FixPlan

/-! ### The fixes of a unit -/

/-- What becomes of a fix that is tried on a tree after those with the given spans have been
applied. -/
def fate (tree : Tree) (spans : List Span) (fix : PendingFix) : Fate :=
  if spans.any (·.overlaps fix.span) then .skipped
  else
    match fix.provider.fix tree fix.diagnostic with
    | .ok fixed => .applied fixed
    | .error e => .failed e

/-- Fixes with their fates, one tried after the other. -/
def fates (tree : Tree) (spans : List Span) : List PendingFix → Ledger
  | [] => []
  | fix :: fixes =>
    let f := fate tree spans fix
    (fix, f) :: fates (f.tree?.getD tree) (spans ++ Ledger.spans [(fix, f)]) fixes

/-- From one attempt to a later one, what the ledger says has happened. -/
structure Attempt.Books (l : Ledger) (a a' : Attempt) : Prop where
  current_eq : a'.current = (l.latest? <|> a.current)
  spans_eq : a'.spans = a.spans ++ l.spans
  counts : FixTally.Counts l a.tally a'.tally

variable {tree : Tree} {spans : List Span} {fix : PendingFix} {fixes : List PendingFix}
variable {file : Path} {a a' a'' : Attempt} {l l' : Ledger}

theorem Attempt.Books.append (h : Books l a a') (h' : Books l' a' a'') :
    Books (l ++ l') a a'' where
  current_eq := by
    rw [h'.current_eq, h.current_eq, Ledger.latest?_append]
    cases l'.latest? <;> rfl
  spans_eq := by rw [h'.spans_eq, h.spans_eq, Ledger.spans_append, List.append_assoc]
  counts := h.counts.append h'.counts

/-- Trying a fix makes one entry. -/
theorem books_tryFix (file : Path) (tree : Tree) (a : Attempt) (fix : PendingFix) :
    Attempt.Books [(fix, fate (a.current.getD tree) a.spans fix)] a (tryFix file tree a fix) := by
  rw [tryFix, fate]
  split
  · exact ⟨rfl, (List.append_nil _).symm, .skipped a.tally fix⟩
  · rcases fix.provider.fix (a.current.getD tree) fix.diagnostic with e | fixed
    · exact ⟨rfl, (List.append_nil _).symm, .failed a.tally fix e _⟩
    · exact ⟨rfl, rfl, .applied a.tally fix fixed⟩

/-- Trying fixes makes the entries of their ledger. -/
theorem books_foldl_tryFix (file : Path) (tree : Tree) (fixes : List PendingFix) (a : Attempt) :
    Attempt.Books (fates (a.current.getD tree) a.spans fixes) a
      (fixes.foldl (tryFix file tree) a) := by
  induction fixes generalizing a with
  | nil => exact ⟨rfl, (List.append_nil _).symm, .nil _⟩
  | cons fix fixes ih =>
    have hone := books_tryFix file tree a fix
    have hcurrent : (tryFix file tree a fix).current.getD tree
        = (fate (a.current.getD tree) a.spans fix).tree?.getD (a.current.getD tree) := by
      rw [hone.current_eq]
      cases fate (a.current.getD tree) a.spans fix <;> rfl
    have hrest := ih (tryFix file tree a fix)
    rw [hcurrent, hone.spans_eq] at hrest
    exact hone.append hrest

/-- The ledger of the fixes of a unit, back to front. -/
def unitLedger (tree : Tree) (fixes : List PendingFix) : Ledger :=
  fates tree [] (fixes.mergeSort PendingFix.isNoLater)

theorem books_fixUnit (file : Path) (tree : Tree) (fixes : List PendingFix) (tally : FixTally) :
    Attempt.Books (unitLedger tree fixes) { tally } (fixUnit file tree fixes tally) :=
  books_foldl_tryFix file tree _ { tally }

theorem map_fst_fates (tree : Tree) (spans : List Span) (fixes : List PendingFix) :
    (fates tree spans fixes).map (·.1) = fixes := by
  induction fixes generalizing tree spans with
  | nil => rfl
  | cons fix fixes ih => exact congrArg (fix :: ·) (ih _ _)

theorem mem_of_mem_fates {e : PendingFix × Fate} (h : e ∈ fates tree spans fixes) :
    e.1 ∈ fixes := by
  rw [← map_fst_fates tree spans fixes]
  exact List.mem_map_of_mem h

theorem fates_cons (tree : Tree) (spans : List Span) (fix : PendingFix)
    (fixes : List PendingFix) :
    fates tree spans (fix :: fixes) = [(fix, fate tree spans fix)]
      ++ fates ((fate tree spans fix).tree?.getD tree)
        (spans ++ Ledger.spans [(fix, fate tree spans fix)]) fixes := rfl

theorem fate_eq_skipped_iff :
    fate tree spans fix = .skipped ↔ ∃ s ∈ spans, s.overlaps fix.span = true := by
  rw [fate, ← List.any_eq_true]
  split
  · rename_i hoverlap
    exact iff_of_true rfl hoverlap
  · rename_i hoverlap
    refine iff_of_false ?_ hoverlap
    split <;> exact Fate.noConfusion

/-- Applied fixes overlap none applied before, nor the spans from the start. -/
theorem applied_fates_apart (tree : Tree) (spans : List Span) (fixes : List PendingFix) :
    (∀ s ∈ spans, ∀ f ∈ (fates tree spans fixes).applied, s.overlaps f.span = false) ∧
      (fates tree spans fixes).applied.Pairwise fun f g => f.span.overlaps g.span = false := by
  induction fixes generalizing tree spans with
  | nil => exact ⟨fun _ _ _ hf => absurd hf List.not_mem_nil, .nil⟩
  | cons fix fixes ih =>
    have hone : ∀ f ∈ Ledger.applied [(fix, fate tree spans fix)],
        ∀ s ∈ spans, s.overlaps f.span = false := by
      intro f hf s hs
      obtain ⟨fixed, hentry⟩ := Ledger.mem_applied_iff.mp hf
      obtain ⟨rfl, hfate⟩ := Prod.mk.inj (List.mem_singleton.mp hentry)
      rw [← Bool.not_eq_true]
      intro hoverlap
      rw [fate_eq_skipped_iff.mpr ⟨s, hs, hoverlap⟩] at hfate
      cases hfate
    have hsingle : (Ledger.applied [(fix, fate tree spans fix)]).Pairwise
        fun f g => f.span.overlaps g.span = false := by
      cases fate tree spans fix with
      | applied => exact List.pairwise_singleton _ _
      | failed | skipped | refused | homeless => exact .nil
    obtain ⟨hbefore, hpairwise⟩ := ih ((fate tree spans fix).tree?.getD tree)
      (spans ++ Ledger.spans [(fix, fate tree spans fix)])
    rw [fates_cons, Ledger.applied_append]
    constructor
    · intro s hs f hf
      rcases List.mem_append.mp hf with hf | hf
      · exact hone f hf s hs
      · exact hbefore s (List.mem_append_left _ hs) f hf
    · refine List.pairwise_append.mpr ⟨hsingle, hpairwise, fun f hf g hg => ?_⟩
      exact hbefore f.span (List.mem_append_right _ (List.mem_map_of_mem hf)) g hg

/-- A fix is skipped for an applied one, or for one of the spans from the start. -/
theorem exists_overlaps_of_skipped (h : (fix, .skipped) ∈ fates tree spans fixes) :
    (∃ s ∈ spans, s.overlaps fix.span = true) ∨
      ∃ f ∈ (fates tree spans fixes).applied, f.span.overlaps fix.span = true := by
  induction fixes generalizing tree spans with
  | nil => cases h
  | cons next fixes ih =>
    rw [fates_cons] at h ⊢
    rw [Ledger.applied_append]
    rcases List.mem_append.mp h with h | h
    · obtain ⟨rfl, hfate⟩ := Prod.mk.inj (List.mem_singleton.mp h)
      exact .inl (fate_eq_skipped_iff.mp hfate.symm)
    · rcases ih h with ⟨s, hs, hoverlap⟩ | ⟨f, hf, hoverlap⟩
      · rcases List.mem_append.mp hs with hs | hs
        · exact .inl ⟨s, hs, hoverlap⟩
        · obtain ⟨f, hf, rfl⟩ := List.mem_map.mp hs
          exact .inr ⟨f, List.mem_append_left _ hf, hoverlap⟩
      · exact .inr ⟨f, List.mem_append_right _ hf, hoverlap⟩

theorem ne_refused_of_mem_fates {e : PendingFix × Fate} (h : e ∈ fates tree spans fixes) :
    e.2 ≠ .refused := by
  induction fixes generalizing tree spans with
  | nil => cases h
  | cons next fixes ih =>
    rw [fates_cons] at h
    rcases List.mem_append.mp h with h | h
    · rw [List.mem_singleton.mp h, fate]
      split
      · exact Fate.noConfusion
      · split <;> exact Fate.noConfusion
    · exact ih h

/-! ### The fixes of a plan -/

variable {p : FixPlan} {c : Compilation} {entry : Path × List PendingFix} {r : FixOutcome}

/-- The ledger of the fixes of a file. -/
def fileLedger (p : FixPlan) (c : Compilation) (entry : Path × List PendingFix) : Ledger :=
  (entry.2.filter (!p.accepts ·)).map (·, .refused) ++
    match c.unit? entry.1 with
    | none => (entry.2.filter p.accepts).map (·, .homeless)
    | some u => unitLedger u.tree (entry.2.filter p.accepts)

/-- The ledger of all pending fixes. -/
def ledger (p : FixPlan) (c : Compilation) : Ledger := p.pending.flatMap (p.fileLedger c)

/-- The fixes that have an entry are those that are pending. -/
theorem map_fst_fileLedger_perm (p : FixPlan) (c : Compilation)
    (entry : Path × List PendingFix) : ((p.fileLedger c entry).map (·.1)).Perm entry.2 := by
  have haccepted : ∀ l : Ledger, (l.map (·.1)).Perm (entry.2.filter p.accepts) →
      (((entry.2.filter (!p.accepts ·)).map (·, Fate.refused) ++ l).map (·.1)).Perm entry.2 := by
    intro l hl
    rw [List.map_append, List.map_map]
    have hrefused : (entry.2.filter (!p.accepts ·)).map ((·.1) ∘ (·, Fate.refused))
        = entry.2.filter (!p.accepts ·) := List.map_id _
    rw [hrefused]
    exact ((List.Perm.refl _).append hl).trans
      (List.perm_append_comm.trans (List.filter_append_perm p.accepts entry.2))
  rw [fileLedger]
  apply haccepted
  split
  · rw [List.map_map]
    exact .of_eq (List.map_id _)
  · rw [unitLedger, map_fst_fates]
    exact List.mergeSort_perm _ _

theorem map_fst_ledger_perm (p : FixPlan) (c : Compilation) :
    ((p.ledger c).map (·.1)).Perm (p.pending.flatMap (·.2)) := by
  rw [ledger, List.map_flatMap]
  exact List.Perm.flatMap_left _ fun entry _ => map_fst_fileLedger_perm p c entry

/-- The fixes that are refused are those that are not let through. -/
theorem accepts_iff_of_mem_fileLedger {e : PendingFix × Fate} (h : e ∈ p.fileLedger c entry) :
    p.accepts e.1 = true ↔ e.2 ≠ .refused := by
  rw [fileLedger] at h
  rcases List.mem_append.mp h with h | h
  · obtain ⟨f, hf, rfl⟩ := List.mem_map.mp h
    have hrefused := (List.mem_filter.mp hf).2
    exact iff_of_false (by simpa using hrefused) fun hne => hne rfl
  · split at h
    · obtain ⟨f, hf, rfl⟩ := List.mem_map.mp h
      exact iff_of_true (List.mem_filter.mp hf).2 Fate.noConfusion
    · have hmem := List.mem_mergeSort.mp (mem_of_mem_fates h)
      exact iff_of_true (List.mem_filter.mp hmem).2 (ne_refused_of_mem_fates h)

/-- Applying the fixes of a file counts the entries of its ledger. -/
theorem counts_applyFile (hmode : p.mode ≠ .showOnly) (c : Compilation) (r : FixOutcome)
    (entry : Path × List PendingFix) :
    FixTally.Counts (p.fileLedger c entry) r.tally (p.applyFile c r entry).tally := by
  obtain ⟨file, fixes⟩ := entry
  have hlength : fixes.length - (fixes.filter p.accepts).length
      = (fixes.filter (!p.accepts ·)).length := by
    have hsplit := List.length_eq_length_filter_add (l := fixes) p.accepts
    omega
  have happlying : ¬ (p.mode == .showOnly) = true := by
    rw [beq_iff_eq]
    exact hmode
  simp only [applyFile, fileLedger, hlength, if_neg happlying]
  refine (FixTally.Counts.refused r.tally _).append ?_
  rcases c.unit? file with - | u
  · exact .homeless _ _ _
  · have hcounts := (books_fixUnit file u.tree (fixes.filter p.accepts)
      (r.tally.skip (fixes.filter (!p.accepts ·)).length)).counts
    dsimp only
    split <;> exact hcounts

/-- Applying a plan counts the entries of its ledger. -/
theorem counts_apply (hmode : p.mode ≠ .showOnly) (c : Compilation) :
    FixTally.Counts (p.ledger c) {} (p.apply c).tally := by
  have hfold : ∀ (entries : PathMap (List PendingFix)) (r : FixOutcome),
      FixTally.Counts (entries.flatMap (p.fileLedger c)) r.tally
        (entries.foldl (p.applyFile c) r).tally := by
    intro entries
    induction entries with
    | nil => exact fun r => .nil r.tally
    | cons entry entries ih =>
      exact fun r => (counts_applyFile hmode c r entry).append (ih (p.applyFile c r entry))
  exact hfold p.pending {}

/-! ### Overlaps in a file -/

/-- In the ledger of a file, applied fixes do not overlap. -/
theorem applied_fileLedger_apart (p : FixPlan) (c : Compilation)
    (entry : Path × List PendingFix) :
    (Ledger.applied (p.fileLedger c entry)).Pairwise
      fun f g => f.span.overlaps g.span = false := by
  rw [fileLedger, Ledger.applied_append, Ledger.applied_map_eq_nil rfl, List.nil_append]
  split
  · rw [Ledger.applied_map_eq_nil rfl]
    exact .nil
  · exact (applied_fates_apart _ _ _).2

/-- In the ledger of a file, a fix that is let through is skipped for an applied one. -/
theorem exists_overlaps_of_mem_fileLedger (h : (fix, .skipped) ∈ p.fileLedger c entry) :
    ∃ f ∈ Ledger.applied (p.fileLedger c entry), f.span.overlaps fix.span = true := by
  rw [fileLedger] at h ⊢
  rw [Ledger.applied_append]
  rcases List.mem_append.mp h with h | h
  · obtain ⟨f, -, hf⟩ := List.mem_map.mp h
    cases hf
  · split at h
    · obtain ⟨f, -, hf⟩ := List.mem_map.mp h
      cases hf
    · rcases exists_overlaps_of_skipped h with ⟨s, hs, -⟩ | ⟨f, hf, hoverlap⟩
      · cases hs
      · exact ⟨f, List.mem_append_right _ hf, hoverlap⟩

/-! ### Applied and left out -/

/-- The fixes that applying the plan applies. -/
def applied (p : FixPlan) (c : Compilation) : List PendingFix := (p.ledger c).applied

/-- The fixes that are let through and yet not applied. -/
def leftOut (p : FixPlan) (c : Compilation) : List PendingFix :=
  ((p.ledger c).filter fun e => p.accepts e.1 && !e.2.isApplied).map (·.1)

theorem length_applied (hmode : p.mode ≠ .showOnly) (c : Compilation) :
    (p.apply c).tally.applied = (p.applied c).length := by
  rw [(counts_apply hmode c).applied_eq, applied, Ledger.applied, List.length_map,
    List.countP_eq_length_filter]
  exact Nat.zero_add _

theorem mem_ledger_iff {e : PendingFix × Fate} :
    e ∈ p.ledger c ↔ ∃ entry ∈ p.pending, e ∈ p.fileLedger c entry := List.mem_flatMap

/-- An applied fix has been let through. -/
theorem accepts_of_isApplied {e : PendingFix × Fate} (he : e ∈ p.ledger c)
    (h : e.2.isApplied = true) : p.accepts e.1 = true := by
  obtain ⟨entry, -, hmem⟩ := mem_ledger_iff.mp he
  rw [accepts_iff_of_mem_fileLedger hmem]
  intro hrefused
  rw [hrefused] at h
  cases h

/-- What has been let through has been applied or left out. -/
theorem filter_accepts_perm (p : FixPlan) (c : Compilation) :
    ((p.pending.flatMap (·.2)).filter p.accepts).Perm (p.applied c ++ p.leftOut c) := by
  have hperm := (map_fst_ledger_perm p c).filter p.accepts
  have hsplit := (List.filter_append_perm (·.2.isApplied)
    ((p.ledger c).filter (p.accepts ∘ (·.1)))).map (·.1)
  rw [List.filter_map] at hperm
  rw [List.map_append, List.filter_filter, List.filter_filter] at hsplit
  refine hperm.symm.trans (hsplit.symm.trans (.of_eq ?_))
  have happlied : (p.ledger c).filter (fun e => e.2.isApplied && (p.accepts ∘ (·.1)) e)
      = (p.ledger c).filter (·.2.isApplied) := by
    refine List.filter_congr fun e he => ?_
    cases hfate : e.2.isApplied with
    | false => rfl
    | true => exact accepts_of_isApplied he hfate
  have hleft : (p.ledger c).filter (fun e => !e.2.isApplied && (p.accepts ∘ (·.1)) e)
      = (p.ledger c).filter fun e => p.accepts e.1 && !e.2.isApplied :=
    List.filter_congr fun _ _ => Bool.and_comm _ _
  rw [happlied, hleft]
  rfl

end FixPlan

end TreeLint
