/-
TreeLint/Proofs/Diagnostic.lean

The order of diagnostics, and what sorting them does.

Diagnostics are compared by file, start, end and rule; those with the same key
are *level*.  Sorting is stable, so a sorted list is determined by the lists of
level diagnostics in it, each in its original order: lists that agree on these
are sorted to the same list (`Diagnostic.sort_eq_of_filter_eq`).

Sorting by insertion is stable, too, and unlike sorting by merging it can be
evaluated step by step (`mergeSort_eq_insertionSort`).
-/
import TreeLint.Proofs.Path
import TreeLint.Diagnostic
import Mathlib.Data.List.Sort

namespace TreeLint

open Std

/-! ### Stable sorting -/

section Stable

variable {α : Type} {le : α → α → Bool}

/-- Sorting keeps the elements that are level with `a` in their order. -/
theorem filter_mergeSort (trans : ∀ a b c, le a b = true → le b c = true → le a c = true)
    (total : ∀ a b, (le a b || le b a) = true) (a : α) (xs : List α) :
    (xs.mergeSort le).filter (fun b => le a b && le b a) = xs.filter fun b => le a b && le b a := by
  have hpairwise : (xs.filter fun b => le a b && le b a).Pairwise (fun x y => le x y = true) := by
    rw [List.pairwise_iff_forall_sublist]
    intro x y hxy
    have hx := List.of_mem_filter (hxy.subset List.mem_cons_self)
    have hy := List.of_mem_filter (hxy.subset (List.mem_cons_of_mem x List.mem_cons_self))
    rw [Bool.and_eq_true] at hx hy
    exact trans x a y hx.2 hy.1
  have hsub := List.sublist_mergeSort trans total hpairwise List.filter_sublist
  have hfilter := hsub.filter fun b => le a b && le b a
  rw [List.filter_filter] at hfilter
  simp only [Bool.and_self] at hfilter
  exact (hfilter.eq_of_length ((List.mergeSort_perm xs le).filter _).length_eq.symm).symm

/-- Sorting by insertion gives the same list, and is what can be evaluated. -/
theorem mergeSort_eq_insertionSort
    (trans : ∀ a b c, le a b = true → le b c = true → le a c = true)
    (total : ∀ a b, (le a b || le b a) = true) (xs : List α) :
    xs.mergeSort le = xs.insertionSort fun a b => le a b = true := by
  induction xs with
  | nil => rw [List.mergeSort_nil, List.insertionSort_nil]
  | cons a xs ih =>
    obtain ⟨front, back, hcons, hrest, hfront⟩ := List.mergeSort_cons trans total a xs
    have hsorted := List.pairwise_mergeSort trans total (a :: xs)
    rw [hcons, List.pairwise_append, List.pairwise_cons] at hsorted
    obtain ⟨-, ⟨hback, -⟩, -⟩ := hsorted
    rw [List.insertionSort_cons, ← ih, hrest, hcons]
    clear hcons hrest ih
    -- the element goes past all that is in front of it, and no further
    induction front with
    | nil =>
      cases back with
      | nil => rfl
      | cons b back => exact (if_pos (hback b List.mem_cons_self)).symm
    | cons b front ih =>
      have hb : ¬ le a b = true := by simpa using hfront b List.mem_cons_self
      rw [List.cons_append, List.cons_append, List.orderedInsert_cons, if_neg hb,
        ih fun c hc => hfront c (List.mem_cons_of_mem b hc)]

/-- Sorted lists that agree on all elements level with each other are equal. -/
theorem eq_of_pairwise_of_filter_eq (refl : ∀ a, le a a = true) {xs ys : List α}
    (hxs : xs.Pairwise fun a b => le a b = true) (hys : ys.Pairwise fun a b => le a b = true)
    (h : ∀ a, (xs.filter fun b => le a b && le b a) = ys.filter fun b => le a b && le b a) :
    xs = ys := by
  -- an element of one list is in the other, because it is level with itself
  have hmem : ∀ {us vs : List α},
      (∀ a, (us.filter fun b => le a b && le b a) = vs.filter fun b => le a b && le b a) →
      ∀ {a}, a ∈ us → a ∈ vs := by
    intro us vs huv a ha
    have hfilter : a ∈ us.filter fun b => le a b && le b a := by
      rw [List.mem_filter, refl a]
      exact ⟨ha, rfl⟩
    rw [huv] at hfilter
    exact List.mem_of_mem_filter hfilter
  induction xs generalizing ys with
  | nil =>
    cases ys with
    | nil => rfl
    | cons y ys => cases hmem (fun a => (h a).symm) (List.mem_cons_self (a := y) (l := ys))
  | cons x xs ih =>
    cases ys with
    | nil => cases hmem h (List.mem_cons_self (a := x) (l := xs))
    | cons y ys =>
      have hle : ∀ {a b : α} {l : List α}, (a :: l).Pairwise (fun a b => le a b = true) →
          b ∈ a :: l → le a b = true := by
        intro a b l hl hb
        rcases List.mem_cons.mp hb with rfl | hb
        · exact refl b
        · exact (List.pairwise_cons.mp hl).1 b hb
      have hxy : le x y = true := hle hxs (hmem (fun a => (h a).symm) List.mem_cons_self)
      have hyx : le y x = true := hle hys (hmem h List.mem_cons_self)
      -- the heads are level, so they head the same list of level elements
      have hhead := h x
      rw [List.filter_cons_of_pos (by rw [refl x]; rfl),
        List.filter_cons_of_pos (by rw [hxy, hyx]; rfl)] at hhead
      obtain rfl := (List.cons.inj hhead).1
      rw [ih hxs.of_cons hys.of_cons]
      intro a
      have ha := h a
      rw [List.filter_cons, List.filter_cons] at ha
      split at ha
      · exact (List.cons.inj ha).2
      · exact ha

/-- Lists that agree on all elements level with each other are sorted to the same list. -/
theorem mergeSort_eq_of_filter_eq
    (trans : ∀ a b c, le a b = true → le b c = true → le a c = true)
    (total : ∀ a b, (le a b || le b a) = true) {xs ys : List α}
    (h : ∀ a, (xs.filter fun b => le a b && le b a) = ys.filter fun b => le a b && le b a) :
    xs.mergeSort le = ys.mergeSort le := by
  have refl : ∀ a, le a a = true := by
    intro a
    simpa using total a a
  apply eq_of_pairwise_of_filter_eq refl (List.pairwise_mergeSort trans total xs)
    (List.pairwise_mergeSort trans total ys)
  intro a
  rw [filter_mergeSort trans total, filter_mergeSort trans total, h]

/-- Not to come after is transitive, in any order. -/
theorem noLater_trans {cmp : α → α → Ordering} [TransCmp cmp] (a b c : α)
    (hab : (cmp a b != .gt) = true) (hbc : (cmp b c != .gt) = true) : (cmp a c != .gt) = true := by
  rw [bne_iff_ne] at *
  have hab := Ordering.isLE_iff_ne_gt.mpr hab
  have hbc := Ordering.isLE_iff_ne_gt.mpr hbc
  exact Ordering.isLE_iff_ne_gt.mp (TransCmp.isLE_trans hab hbc)

/-- One of two elements does not come after the other. -/
theorem noLater_total {cmp : α → α → Ordering} [OrientedCmp cmp] (a b : α) :
    ((cmp a b != .gt) || (cmp b a != .gt)) = true := by
  rw [@OrientedCmp.eq_swap α cmp _ b a]
  cases cmp a b <;> rfl

end Stable

/-! ### The order of diagnostics -/

namespace Diagnostic

theorem compareText_eq (s t : String) : compareText s t = Ord.compare s t := by
  show _ = compareOfLessAndEq s t
  rw [compareText, compareOfLessAndEq]
  by_cases h : s = t
  · subst h
    rw [if_pos rfl, if_neg (String.lt_irrefl s), if_pos rfl]
  · rw [if_neg h, if_neg h]

/-- The order of the files of diagnostics. -/
def compareFile (a b : Diagnostic) : Ordering := a.location.file.compare b.location.file

instance : TransCmp compareFile where
  eq_swap {_ _} := @OrientedCmp.eq_swap _ Path.compare _ _ _
  isLE_trans {_ _ _} := @TransCmp.isLE_trans _ Path.compare _ _ _ _

/-- Diagnostics are compared by file, start, end and rule. -/
theorem compare_eq :
    compare = compareLex compareFile (compareLex (compareOn (·.span.start))
      (compareLex (compareOn (·.span.stop)) (compareOn ruleId))) := by
  funext a b
  rw [compare, compareText_eq]
  rfl

instance : TransCmp compare := by
  rw [compare_eq]
  infer_instance

/-- Whether two diagnostics are in the same place and of the same rule. -/
def level (a b : Diagnostic) : Bool := a.compare b == .eq

theorem level_iff {a b : Diagnostic} :
    a.level b = true ↔
      a.location.file.same b.location.file = true ∧ a.span = b.span ∧ a.ruleId = b.ruleId := by
  rw [level, beq_iff_eq, compare, Ordering.then_eq_eq, Ordering.then_eq_eq, Ordering.then_eq_eq,
    compareText_eq, Path.compare_eq_eq_iff, LawfulEqOrd.compare_eq_iff_eq,
    LawfulEqOrd.compare_eq_iff_eq, LawfulEqOrd.compare_eq_iff_eq]
  have hspan : a.span = b.span ↔ a.span.start = b.span.start ∧ a.span.stop = b.span.stop := by
    cases a.span
    cases b.span
    exact Span.mk.injEq _ _ _ _ ▸ Iff.rfl
  rw [hspan, and_assoc]

/-- Neither of two diagnostics comes after the other when they are level. -/
theorem noLater_and_noLater (a b : Diagnostic) :
    (a.compare b != .gt && b.compare a != .gt) = a.level b := by
  rw [level, @OrientedCmp.eq_swap _ compare _ b a]
  cases a.compare b <;> rfl

/-- Lists that agree on all diagnostics level with each other are sorted to the same list. -/
theorem sort_eq_of_filter_eq {ds ds' : List Diagnostic}
    (h : ∀ d : Diagnostic, ds.filter d.level = ds'.filter d.level) : sort ds = sort ds' := by
  apply mergeSort_eq_of_filter_eq noLater_trans noLater_total
  intro a
  simp only [noLater_and_noLater]
  exact h a

/-- Sorting keeps level diagnostics in their order. -/
theorem filter_sort (ds : List Diagnostic) (d : Diagnostic) :
    (sort ds).filter d.level = ds.filter d.level := by
  have h := @filter_mergeSort _ (fun a b : Diagnostic => a.compare b != .gt) noLater_trans
    noLater_total d ds
  simp only [noLater_and_noLater] at h
  exact h

theorem pairwise_sort (ds : List Diagnostic) :
    (sort ds).Pairwise fun a b => (a.compare b != .gt) = true :=
  List.pairwise_mergeSort noLater_trans noLater_total ds

theorem sort_eq_insertionSort (ds : List Diagnostic) :
    sort ds = ds.insertionSort fun a b => (a.compare b != .gt) = true :=
  mergeSort_eq_insertionSort noLater_trans noLater_total ds

/-- A list in order is what any list is sorted to that agrees with it on level diagnostics. -/
theorem sort_eq_of_pairwise {ds ds' : List Diagnostic}
    (hpairwise : ds'.Pairwise fun a b => (a.compare b != .gt) = true)
    (h : ∀ d : Diagnostic, ds.filter d.level = ds'.filter d.level) : sort ds = ds' :=
  (sort_eq_of_filter_eq h).trans (List.mergeSort_of_pairwise hpairwise)

end Diagnostic

end TreeLint
