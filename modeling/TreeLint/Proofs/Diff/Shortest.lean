/-
TreeLint/Proofs/Diff/Shortest.lean

Scripts keep as much as possible.

What the table of common subsequences holds is said by a recursion on both lists,
which takes equal heads together and otherwise leaves out one head or the other
(`lcsLength`).  No common subsequence is longer than it says
(`length_le_lcsLength`), and the table has its values for all pairs of suffixes
(`lcsTable_eq`).

The walk along the table keeps exactly as many entries (`countP_walk`).  What a script
keeps is a common subsequence itself, so these are as many as any common subsequence
has, and no other script between the lists is shorter (`script_shortest`).
-/
import TreeLint.Proofs.Diff.Script
import Mathlib.Data.List.Infix

namespace TreeLint.Diff

variable {α : Type}

/-- A list that can be read out of both lists, and is as long as any that can. -/
structure IsLongestCommon (common old new : List α) : Prop where
  sublist_old : common.Sublist old
  sublist_new : common.Sublist new
  longest : ∀ c : List α, c.Sublist old → c.Sublist new → c.length ≤ common.length

/-! ### What scripts keep -/

/-- The entries that a script keeps. -/
def keptEntries (s : List (Edit α)) : List α := oldEntries (s.filter Edit.isKept)

theorem keptEntries_sublist_old (s : List (Edit α)) : (keptEntries s).Sublist (oldEntries s) :=
  s.filter_sublist.filterMap Edit.old?

theorem keptEntries_sublist_new (s : List (Edit α)) : (keptEntries s).Sublist (newEntries s) := by
  have hread : newEntries (s.filter Edit.isKept) = keptEntries s :=
    newEntries_eq_oldEntries fun e he => (List.mem_filter.mp he).2
  rw [← hread]
  exact s.filter_sublist.filterMap Edit.new?

theorem length_keptEntries (s : List (Edit α)) :
    (keptEntries s).length = s.countP Edit.isKept := by
  rw [keptEntries, length_oldEntries fun e he => (List.mem_filter.mp he).2,
    List.countP_eq_length_filter]

/-! ### Longest common subsequences -/

variable [DecidableEq α]

/-- How long common subsequences of two lists can be. -/
def lcsLength : List α → List α → Nat
  | [], _ => 0
  | _ :: _, [] => 0
  | x :: xs, y :: ys =>
    if x = y then lcsLength xs ys + 1
    else max (lcsLength xs (y :: ys)) (lcsLength (x :: xs) ys)
termination_by old new => old.length + new.length

theorem length_le_lcsLength {c old new : List α} (hold : c.Sublist old) (hnew : c.Sublist new) :
    c.length ≤ lcsLength old new := by
  induction old, new using lcsLength.induct generalizing c with
  | case1 new =>
    rw [List.sublist_nil.mp hold]
    exact Nat.zero_le _
  | case2 x xs =>
    rw [List.sublist_nil.mp hnew]
    exact Nat.zero_le _
  | case3 xs y ys ih =>
    -- at most the head is lost on the way to a common subsequence of the tails
    have hle := ih hold.tail hnew.tail
    rw [List.length_tail] at hle
    rw [lcsLength, if_pos rfl]
    exact Nat.le_add_of_sub_le hle
  | case4 x xs y ys hne ihold ihnew =>
    rw [lcsLength, if_neg hne]
    cases c with
    | nil => exact Nat.zero_le _
    | cons z c =>
      -- a first entry cannot be both heads, so one of the heads may as well be left out
      by_cases hz : z = x
      · have hne' : z ≠ y := hz ▸ hne
        apply Nat.le_trans (ihnew hold (hnew.of_cons_of_ne hne'))
        exact Nat.le_max_right _ _
      · apply Nat.le_trans (ihold (hold.of_cons_of_ne hz) hnew)
        exact Nat.le_max_left _ _

/-! ### The table -/

/-- The table of the lengths for all suffixes of two lists. -/
def lcsGrid (old new : List α) : List (List Nat) :=
  old.tails.map fun xs => new.tails.map (lcsLength xs)

theorem headD_map_tails {β γ : Type} (f : List β → γ) (l : List β) (d : γ) :
    (l.tails.map f).headD d = f l := by
  cases l <;> rfl

theorem lcsRow_eq (x : α) (xs new : List α) :
    lcsRow x new (new.tails.map (lcsLength xs)) = new.tails.map (lcsLength (x :: xs)) := by
  induction new with
  | nil => simp [lcsRow, lcsLength]
  | cons y ys ih =>
    rw [List.tails_cons, List.map_cons, List.map_cons, lcsRow, List.tail_cons, ih,
      headD_map_tails, headD_map_tails, List.headD_cons, lcsLength]

/-- The table holds the lengths. -/
theorem lcsTable_eq (old new : List α) : lcsTable old new = lcsGrid old new := by
  induction old with
  | nil =>
    have hzero : lcsLength ([] : List α) = fun _ => 0 := by
      funext new
      rw [lcsLength]
    simp [lcsTable, lcsGrid, hzero]
  | cons x xs ih =>
    have hhead : (lcsGrid xs new).headD [] = new.tails.map (lcsLength xs) :=
      headD_map_tails ..
    rw [lcsTable, ih, hhead, lcsRow_eq]
    rfl

/-! ### The walk -/

theorem tail_lcsGrid (x : α) (xs new : List α) :
    (lcsGrid (x :: xs) new).tail = lcsGrid xs new := rfl

theorem map_tail_lcsGrid (old : List α) (y : α) (ys : List α) :
    (lcsGrid old (y :: ys)).map List.tail = lcsGrid old ys := by
  rw [lcsGrid, List.map_map]
  rfl

theorem cell_lcsGrid_row (x : α) (xs new : List α) :
    cell (lcsGrid (x :: xs) new) 1 0 = lcsLength xs new := by
  cases xs <;> cases new <;> rfl

theorem cell_lcsGrid_column (old : List α) (y : α) (ys : List α) :
    cell (lcsGrid old (y :: ys)) 0 1 = lcsLength old ys := by
  cases old <;> cases ys <;> rfl

/-- The walk along the table keeps as many entries as the table says. -/
theorem countP_walk (old new : List α) :
    (walk old new (lcsGrid old new)).countP Edit.isKept = lcsLength old new := by
  induction old, new using lcsLength.induct with
  | case1 new =>
    rw [walk, lcsLength, List.countP_eq_zero]
    simp [Edit.isKept]
  | case2 x xs =>
    rw [walk, lcsLength, List.countP_eq_zero]
    simp [Edit.isKept]
  | case3 xs y ys ih =>
    rw [walk, if_pos rfl, tail_lcsGrid, map_tail_lcsGrid, List.countP_cons, ih, lcsLength,
      if_pos rfl]
    rfl
  | case4 x xs y ys hne ihold ihnew =>
    rw [walk, if_neg hne, cell_lcsGrid_row, cell_lcsGrid_column, tail_lcsGrid, map_tail_lcsGrid,
      lcsLength, if_neg hne]
    split
    · rename_i hle
      rw [List.countP_cons, ihold, Nat.max_eq_left hle]
      rfl
    · rename_i hle
      rw [List.countP_cons, ihnew, Nat.max_eq_right (Nat.le_of_not_le hle)]
      rfl

/-- **Scripts are shortest.**  A script leads from the one list to the other, the entries that it
keeps are as many as a longest common subsequence has, and no script between the two lists has
fewer entries. -/
theorem script_shortest (old new : List α) :
    oldEntries (script old new) = old ∧ newEntries (script old new) = new ∧
      (∃ common, IsLongestCommon common old new ∧
        (script old new).countP Edit.isKept = common.length) ∧
      ∀ s, oldEntries s = old → newEntries s = new → (script old new).length ≤ s.length := by
  have hold := oldEntries_script old new
  have hnew := newEntries_script old new
  have hkept : (script old new).countP Edit.isKept = lcsLength old new := by
    rw [script, lcsTable_eq]
    exact countP_walk old new
  refine ⟨hold, hnew, ⟨keptEntries (script old new), ⟨?_, ?_, ?_⟩, ?_⟩, ?_⟩
  · have hsublist := keptEntries_sublist_old (script old new)
    rwa [hold] at hsublist
  · have hsublist := keptEntries_sublist_new (script old new)
    rwa [hnew] at hsublist
  · intro c hcold hcnew
    rw [length_keptEntries, hkept]
    exact length_le_lcsLength hcold hcnew
  · exact (length_keptEntries _).symm
  · intro s hsold hsnew
    -- entries that are kept are read both ways, so the more of them the shorter the script
    have hmost : s.countP Edit.isKept ≤ lcsLength old new := by
      rw [← length_keptEntries]
      exact length_le_lcsLength (hsold ▸ keptEntries_sublist_old s)
        (hsnew ▸ keptEntries_sublist_new s)
    have hlength := length_add_countP_isKept (script old new)
    have hlength' := length_add_countP_isKept s
    rw [hold, hnew, hkept] at hlength
    rw [hsold, hsnew] at hlength'
    omega

/-- Where a line moves, a script that also puts an unmoved line anew is not the shortest. -/
theorem script_shortest_movedLine :
    let rewritten : List (Edit String) :=
      [.add "c", .remove "a", .add "a", .keep "b", .remove "c"]
    (oldEntries rewritten = ["a", "b", "c"] ∧ newEntries rewritten = ["c", "a", "b"]) ∧
      (script ["a", "b", "c"] ["c", "a", "b"]).length ≤ rewritten.length :=
  ⟨⟨rfl, rfl⟩, (script_shortest ["a", "b", "c"] ["c", "a", "b"]).2.2.2 _ rfl rfl⟩

end TreeLint.Diff
