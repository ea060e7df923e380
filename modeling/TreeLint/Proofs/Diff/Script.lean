/-
TreeLint/Proofs/Diff/Script.lean

What a script reads as.

Whatever the table of common subsequences says, each step of the walk takes an
entry off the side that it comes from.  So a script read without its additions is
the old list, and read without its removals the new one (`oldEntries_script`,
`newEntries_script`).

Unchanged entries read the same both ways (`newEntries_eq_oldEntries`), and all
others are read one way only (`length_add_countP_isKept`).
-/
import TreeLint.Diff.Script
import Mathlib.Data.List.Basic

namespace TreeLint.Diff

variable {α : Type}

/-! ### Reading scripts -/

@[simp] theorem oldEntries_append (s s' : List (Edit α)) :
    oldEntries (s ++ s') = oldEntries s ++ oldEntries s' := List.filterMap_append ..

@[simp] theorem newEntries_append (s s' : List (Edit α)) :
    newEntries (s ++ s') = newEntries s ++ newEntries s' := List.filterMap_append ..

theorem oldEntries_cons (e : Edit α) (s : List (Edit α)) :
    oldEntries (e :: s) = e.old?.toList ++ oldEntries s := by
  cases e <;> rfl

theorem newEntries_cons (e : Edit α) (s : List (Edit α)) :
    newEntries (e :: s) = e.new?.toList ++ newEntries s := by
  cases e <;> rfl

/-- Entries that are kept read the same both ways. -/
theorem newEntries_eq_oldEntries {s : List (Edit α)} (h : ∀ e ∈ s, e.isKept = true) :
    newEntries s = oldEntries s := by
  refine List.filterMap_congr fun e he => ?_
  cases e with
  | keep => rfl
  | remove | add => cases h _ he

theorem length_oldEntries {s : List (Edit α)} (h : ∀ e ∈ s, e.isKept = true) :
    (oldEntries s).length = s.length := by
  induction s with
  | nil => rfl
  | cons e s ih =>
    rw [oldEntries_cons, List.length_append, ih fun e' he' => h e' (List.mem_cons_of_mem e he'),
      List.length_cons, Nat.add_comm]
    cases e with
    | keep => rfl
    | remove | add => cases h _ List.mem_cons_self

/-- Every entry is read one way, and those that are kept both ways. -/
theorem length_add_countP_isKept (s : List (Edit α)) :
    s.length + s.countP Edit.isKept = (oldEntries s).length + (newEntries s).length := by
  induction s with
  | nil => rfl
  | cons e s ih =>
    rw [oldEntries_cons, newEntries_cons, List.length_append, List.length_append,
      List.length_cons, List.countP_cons]
    cases e <;> simp [Edit.old?, Edit.new?, Edit.isKept] <;> omega

theorem length_le_add (s : List (Edit α)) :
    s.length ≤ (oldEntries s).length + (newEntries s).length := by
  rw [← length_add_countP_isKept]
  exact Nat.le_add_right _ _

/-! ### The walk -/

variable [DecidableEq α]

theorem oldEntries_walk (old new : List α) (rows : List (List Nat)) :
    oldEntries (walk old new rows) = old := by
  induction old, new, rows using walk.induct with
  | case1 rows new => rw [walk]; simp [oldEntries, Edit.old?, Function.comp_def]
  | case2 x xs rows => rw [walk]; simp [oldEntries, Edit.old?, Function.comp_def]
  | case3 xs y ys rows ih => rw [walk, if_pos rfl, oldEntries_cons, ih]; rfl
  | case4 x xs y ys rows hne hle ih => rw [walk, if_neg hne, if_pos hle, oldEntries_cons, ih]; rfl
  | case5 x xs y ys rows hne hle ih =>
    rw [walk, if_neg hne, if_neg hle, oldEntries_cons]
    simpa [Edit.old?] using ih

theorem newEntries_walk (old new : List α) (rows : List (List Nat)) :
    newEntries (walk old new rows) = new := by
  induction old, new, rows using walk.induct with
  | case1 rows new => rw [walk]; simp [newEntries, Edit.new?, Function.comp_def]
  | case2 x xs rows => rw [walk]; simp [newEntries, Edit.new?]
  | case3 xs y ys rows ih => rw [walk, if_pos rfl, newEntries_cons, ih]; rfl
  | case4 x xs y ys rows hne hle ih => rw [walk, if_neg hne, if_pos hle, newEntries_cons, ih]; rfl
  | case5 x xs y ys rows hne hle ih =>
    rw [walk, if_neg hne, if_neg hle, newEntries_cons]
    simpa [Edit.new?] using ih

/-- A script starts from the old list. -/
theorem oldEntries_script (old new : List α) : oldEntries (script old new) = old :=
  oldEntries_walk old new _

/-- A script leads to the new list. -/
theorem newEntries_script (old new : List α) : newEntries (script old new) = new :=
  newEntries_walk old new _

end TreeLint.Diff
