/-
TreeLint/Proofs/Path.lean

The order of paths.  Components are compared by sort and then by text, and
paths by their lists of components, so both orders are lexicographic, and
transitive because their parts are.  Two paths are level exactly when they have
the same components.
-/
import TreeLint.Path

namespace TreeLint

open Std

/-! ### Components -/

namespace Component

/-- Components are compared by sort, then by text. -/
theorem compare_eq (a b : Component) :
    a.compare b
      = compareLex (compareOn rank) (compareOn Path.componentText) a b := by
  cases a with
  | name x =>
    cases b with
    | name y =>
      show (if x = y then .eq else if x < y then .lt else .gt) = compareOfLessAndEq x y
      rw [compareOfLessAndEq]
      by_cases h : x = y
      · subst h
        rw [if_pos rfl, if_neg (String.lt_irrefl x), if_pos rfl]
      · rw [if_neg h, if_neg h]
    | root => rfl
    | here => rfl
    | up => rfl
  | root => cases b <;> rfl
  | here => cases b <;> rfl
  | up => cases b <;> rfl

instance : TransCmp compare := by
  have h : compare = compareLex (compareOn rank) (compareOn Path.componentText) := by
    funext a b
    exact compare_eq a b
  rw [h]
  infer_instance

instance : LawfulEqCmp compare where
  eq_of_compare {a b} h := by
    rw [compare_eq, compareLex, Ordering.then_eq_eq, compareOn, compareOn,
      LawfulEqOrd.compare_eq_iff_eq, LawfulEqOrd.compare_eq_iff_eq] at h
    obtain ⟨hrank, htext⟩ := h
    cases a <;> cases b <;> simp_all [rank, Path.componentText]

end Component

/-! ### Paths -/

namespace Path

theorem compareComponents_eq (as bs : List Component) :
    compareComponents as bs = List.compareLex Component.compare as bs := by
  induction as generalizing bs with
  | nil => cases bs <;> rfl
  | cons a as ih =>
    cases bs with
    | nil => rfl
    | cons b bs => rw [compareComponents, ih, List.compareLex_cons_cons]

theorem compare_eq (p q : Path) :
    p.compare q = List.compareLex Component.compare p.components q.components :=
  compareComponents_eq _ _

instance : TransCmp compare where
  eq_swap {p q} := by
    rw [compare_eq, compare_eq]
    exact OrientedCmp.eq_swap
  isLE_trans {p q r} hpq hqr := by
    rw [compare_eq] at *
    exact TransCmp.isLE_trans hpq hqr

/-- Paths are level when they have the same components. -/
theorem compare_eq_eq_iff {p q : Path} : p.compare q = .eq ↔ p.same q = true := by
  rw [compare_eq, LawfulEqCmp.compare_eq_iff_eq, same, beq_iff_eq]

theorem same_iff {p q : Path} : p.same q = true ↔ p.components = q.components := by
  rw [same, beq_iff_eq]

theorem same_comm (p q : Path) : p.same q = q.same p := by
  rw [same, same, Bool.beq_comm]

theorem same_eq_of_same {p q : Path} (h : p.same q = true) (r : Path) : p.same r = q.same r := by
  rw [same, same, same_iff.mp h]

theorem same_eq_of_same_right {p q : Path} (h : p.same q = true) (r : Path) :
    r.same p = r.same q := by
  rw [same, same, same_iff.mp h]

/-- A path is not the same as a greater one. -/
theorem not_same_of_lt {p q : Path} (h : p.compare q = .lt) : ¬ p.same q = true := by
  intro hsame
  have heq := compare_eq_eq_iff.mpr hsame
  rw [h] at heq
  cases heq

end Path

end TreeLint
