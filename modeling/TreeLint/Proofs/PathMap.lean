/-
TreeLint/Proofs/PathMap.lean

Maps from paths.  A map is sorted when its keys are in the strict order of
paths; changing one value keeps it sorted and changes what is found under that
path only.

Grouping items by path puts every item into one entry: the value of an entry is
the list of the items with its path, in their order (`PathMap.get?_group`), and
all entries together hold the items (`PathMap.flatMap_group_perm`).
-/
import Mathlib.Data.List.Induction
import TreeLint.PathMap
import TreeLint.Proofs.Path

namespace TreeLint

open Std

namespace PathMap

variable {α : Type}

/-- The keys are in the order of paths, and different. -/
def Sorted (m : PathMap α) : Prop := m.Pairwise fun a b => a.1.compare b.1 = .lt

theorem get?_cons (p : Path) (v : α) (m : PathMap α) (q : Path) :
    get? ((p, v) :: m) q = if p.same q then some v else m.get? q := by
  rw [get?, List.find?_cons]
  cases p.same q <;> rfl

theorem get?_eq_none_iff {m : PathMap α} {q : Path} :
    m.get? q = none ↔ ∀ e ∈ m, ¬ e.1.same q = true := by
  rw [get?, Option.map_eq_none_iff, List.find?_eq_none]

theorem exists_of_get?_eq_some {m : PathMap α} {q : Path} {v : α} (h : m.get? q = some v) :
    ∃ e ∈ m, e.1.same q = true ∧ e.2 = v := by
  obtain ⟨e, hfind, hv⟩ := Option.map_eq_some_iff.mp h
  have hsame := List.find?_some hfind
  exact ⟨e, List.mem_of_find?_eq_some hfind, hsame, hv⟩

/-- Behind a smaller key, a path is not found. -/
theorem get?_eq_none {m : PathMap α} {q : Path} (h : ∀ e ∈ m, q.compare e.1 = .lt) :
    m.get? q = none := by
  rw [get?_eq_none_iff]
  intro e he
  rw [Path.same_comm]
  exact Path.not_same_of_lt (h e he)

theorem mem_alter {m : PathMap α} {path : Path} {f : Option α → α} {e : Path × α}
    (h : e ∈ m.alter path f) : e.1 = path ∨ ∃ e' ∈ m, e'.1 = e.1 := by
  induction m with
  | nil =>
    rw [List.mem_singleton.mp h]
    exact .inl rfl
  | cons entry m ih =>
    obtain ⟨p, v⟩ := entry
    rw [alter] at h
    split at h
    · rcases List.mem_cons.mp h with rfl | h
      · exact .inl rfl
      · exact .inr ⟨e, h, rfl⟩
    · rcases List.mem_cons.mp h with rfl | h
      · exact .inr ⟨(p, v), List.mem_cons_self, rfl⟩
      · exact .inr ⟨e, List.mem_cons_of_mem _ h, rfl⟩
    · rcases List.mem_cons.mp h with rfl | h
      · exact .inr ⟨(p, v), List.mem_cons_self, rfl⟩
      · rcases ih h with h | ⟨e', he', h⟩
        · exact .inl h
        · exact .inr ⟨e', List.mem_cons_of_mem _ he', h⟩

theorem Sorted.alter {m : PathMap α} (h : m.Sorted) (path : Path) (f : Option α → α) :
    (m.alter path f).Sorted := by
  induction m with
  | nil => exact List.pairwise_singleton _ _
  | cons entry m ih =>
    obtain ⟨p, v⟩ := entry
    obtain ⟨hlt, hm⟩ := List.pairwise_cons.mp h
    rw [PathMap.alter]
    split
    · rename_i hcompare
      refine List.pairwise_cons.mpr ⟨?_, h⟩
      intro e he
      rcases List.mem_cons.mp he with rfl | he
      · exact hcompare
      · exact TransCmp.lt_trans hcompare (hlt e he)
    · exact List.pairwise_cons.mpr ⟨hlt, hm⟩
    · rename_i hcompare
      refine List.pairwise_cons.mpr ⟨?_, ih hm⟩
      intro e he
      rcases mem_alter he with he | ⟨e', he', hkey⟩
      · rw [he]
        exact OrientedCmp.gt_iff_lt.mp hcompare
      · rw [← hkey]
        exact hlt e' he'

/-- Changing a value changes what is found under its path only. -/
theorem Sorted.get?_alter {m : PathMap α} (h : m.Sorted) (path q : Path) (f : Option α → α) :
    (m.alter path f).get? q = if path.same q then some (f (m.get? path)) else m.get? q := by
  induction m with
  | nil =>
    rw [PathMap.alter, get?_cons]
    rfl
  | cons entry m ih =>
    obtain ⟨p, v⟩ := entry
    obtain ⟨hlt, hm⟩ := List.pairwise_cons.mp h
    rw [PathMap.alter]
    split
    · rename_i hcompare
      have hnone : get? ((p, v) :: m) path = none := by
        apply get?_eq_none
        intro e he
        rcases List.mem_cons.mp he with rfl | he
        · exact hcompare
        · exact TransCmp.lt_trans hcompare (hlt e he)
      rw [get?_cons path, hnone]
    · rename_i hcompare
      have hsame : path.same p = true := Path.compare_eq_eq_iff.mp hcompare
      have hsame' : p.same path = true := Path.same_comm path p ▸ hsame
      rw [get?_cons, get?_cons, get?_cons, if_pos hsame', Path.same_eq_of_same hsame q]
      split <;> rfl
    · rename_i hcompare
      have hother : ¬ p.same path = true :=
        Path.not_same_of_lt (OrientedCmp.gt_iff_lt.mp hcompare)
      rw [get?_cons p _ _ q, ih hm, get?_cons p v m path, get?_cons p v m q, if_neg hother]
      by_cases hpath : path.same q = true
      · -- what is the same as the path is not the same as the smaller key
        have hpq : ¬ p.same q = true := by
          rw [← Path.same_eq_of_same_right hpath]
          exact hother
        rw [if_pos hpath, if_pos hpath, if_neg hpq]
      · rw [if_neg hpath, if_neg hpath]

/-- In a sorted map, every entry is found. -/
theorem Sorted.get?_eq_some {m : PathMap α} (h : m.Sorted) {e : Path × α} (he : e ∈ m) :
    m.get? e.1 = some e.2 := by
  induction m with
  | nil => cases he
  | cons entry m ih =>
    obtain ⟨p, v⟩ := entry
    obtain ⟨hlt, hm⟩ := List.pairwise_cons.mp h
    rw [get?_cons]
    rcases List.mem_cons.mp he with rfl | he
    · rw [if_pos (Path.same_iff.mpr rfl)]
    · rw [if_neg (Path.not_same_of_lt (hlt e he))]
      exact ih hm he

/-- In a sorted map, what stands behind a key is not the same path. -/
theorem Sorted.not_same {e : Path × α} {m : PathMap α} (h : Sorted (e :: m)) {path : Path}
    (hpath : e.1.same path = true) {e' : Path × α} (he' : e' ∈ m) : ¬ e'.1.same path = true := by
  have hlt := (List.pairwise_cons.mp h).1 e' he'
  rw [← Path.same_eq_of_same_right hpath, Path.same_comm]
  exact Path.not_same_of_lt hlt

/-- A sorted map stays sorted when values are changed or left out. -/
theorem Sorted.filterMap {m : PathMap α} (h : m.Sorted) {β : Type} (g : Path × α → Option β) :
    Sorted (m.filterMap fun e => (g e).map (e.1, ·)) := by
  refine List.pairwise_filterMap.mpr (h.imp ?_)
  intro a b hab a' ha' b' hb'
  obtain ⟨_, -, rfl⟩ := Option.map_eq_some_iff.mp ha'
  obtain ⟨_, -, rfl⟩ := Option.map_eq_some_iff.mp hb'
  exact hab

/-- Values of a sorted map that are changed or left out are found under their paths. -/
theorem Sorted.get?_filterMap {m : PathMap α} (h : m.Sorted) {β : Type} (g : Path × α → Option β)
    (path : Path) :
    get? (m.filterMap fun e => (g e).map (e.1, ·)) path
      = (m.find? (·.1.same path)).bind g := by
  induction m with
  | nil => rfl
  | cons e m ih =>
    have hrest := ih (List.pairwise_cons.mp h).2
    rw [List.find?_cons]
    cases hpath : e.1.same path with
    | true =>
      cases hg : g e with
      | none =>
        have hnone : m.find? (·.1.same path) = none :=
          List.find?_eq_none.mpr fun e' he' => h.not_same hpath he'
        rw [List.filterMap_cons_none (by rw [hg]; rfl), hrest, hnone, Option.bind_some, hg]
        rfl
      | some v =>
        rw [List.filterMap_cons_some (by rw [hg]; rfl), get?_cons, hpath, Option.bind_some, hg]
        rfl
    | false =>
      cases hg : g e with
      | none => rw [List.filterMap_cons_none (by rw [hg]; rfl), hrest]
      | some v =>
        rw [List.filterMap_cons_some (by rw [hg]; rfl), get?_cons, hpath, ← hrest]
        rfl

/-- Of items that belong to the keys of a sorted map, those with a path belong to one key. -/
theorem Sorted.filter_flatMap {m : PathMap α} (h : m.Sorted) {β : Type}
    {g : Path × α → List β} {key : β → Path}
    (hkey : ∀ e ∈ m, ∀ b ∈ g e, (key b).same e.1 = true) (path : Path) :
    (m.flatMap g).filter (fun b => (key b).same path)
      = ((m.find? (·.1.same path)).map g).getD [] := by
  have hsame : ∀ e ∈ m, ∀ b ∈ g e, (key b).same path = e.1.same path := by
    intro e he b hb
    exact Path.same_eq_of_same (hkey e he b hb) path
  clear hkey
  induction m with
  | nil => rfl
  | cons e m ih =>
    have hrest := ih (List.pairwise_cons.mp h).2 fun e' he' => hsame e' (List.mem_cons_of_mem e he')
    have hfirst := hsame e List.mem_cons_self
    rw [List.flatMap_cons, List.filter_append, hrest, List.find?_cons]
    cases hpath : e.1.same path with
    | true =>
      have hnone : m.find? (·.1.same path) = none :=
        List.find?_eq_none.mpr fun e' he' => h.not_same hpath he'
      rw [hnone, Option.map_none, Option.getD_none, List.append_nil, List.filter_eq_self.mpr]
      · rfl
      · exact fun b hb => (hfirst b hb).trans hpath
    | false =>
      rw [List.filter_eq_nil_iff.mpr, List.nil_append]
      intro b hb
      rw [hfirst b hb, hpath]
      exact Bool.false_ne_true

/-! ### Groups -/

theorem group_append_singleton (key : α → Path) (items : List α) (a : α) :
    group key (items ++ [a])
      = (group key items).alter (key a) fun old => old.getD [] ++ [a] := by
  rw [group, List.foldl_append]
  rfl

theorem sorted_group (key : α → Path) (items : List α) : (group key items).Sorted := by
  refine List.foldlRecOn _ _ (motive := Sorted) .nil ?_
  intro m hm a _
  exact hm.alter _ _

/-- Under a path stand the items with that path, in their order. -/
theorem get?_group (key : α → Path) (items : List α) (path : Path) :
    (group key items).get? path
      = (some (items.filter fun a => (key a).same path)).filter (!·.isEmpty) := by
  induction items using List.reverseRecOn generalizing path with
  | nil => rfl
  | append_singleton items a ih =>
    rw [group_append_singleton, (sorted_group key items).get?_alter, ih, ih, List.filter_append]
    by_cases hpath : (key a).same path = true
    · -- the items before have the path of the new one, too, or there are none
      have hitems : (items.filter fun b => (key b).same (key a))
          = items.filter fun b => (key b).same path :=
        List.filter_congr fun b _ => Path.same_eq_of_same_right hpath (key b)
      rw [if_pos hpath, hitems, List.filter_cons, if_pos hpath, List.filter_nil]
      rcases items.filter fun b => (key b).same path with - | ⟨b, bs⟩ <;> rfl
    · rw [if_neg hpath, List.filter_cons, if_neg hpath, List.filter_nil, List.append_nil]

/-- The value of an entry is the list of the items with its path. -/
theorem of_mem_group {key : α → Path} {items : List α} {e : Path × List α}
    (he : e ∈ group key items) :
    e.2 = items.filter (fun a => (key a).same e.1) ∧ e.2 ≠ [] := by
  have hget := (sorted_group key items).get?_eq_some he
  rw [get?_group, Option.filter_eq_some_iff] at hget
  obtain ⟨hvalue, hne⟩ := hget
  refine ⟨(Option.some.inj hvalue).symm, ?_⟩
  intro hnil
  rw [hnil] at hne
  cases hne

/-- An item more is one item more in all. -/
theorem flatMap_alter_perm (m : PathMap (List α)) (path : Path) (a : α) :
    ((m.alter path fun old => old.getD [] ++ [a]).flatMap (·.2)).Perm (a :: m.flatMap (·.2)) := by
  induction m with
  | nil => exact .refl _
  | cons entry m ih =>
    obtain ⟨p, v⟩ := entry
    rw [alter]
    split
    · exact .refl _
    · rw [List.flatMap_cons, List.flatMap_cons]
      exact (List.perm_append_singleton a v).append_right _
    · rw [List.flatMap_cons, List.flatMap_cons]
      exact (ih.append_left v).trans List.perm_middle

/-- Every item is in a group, and in one only. -/
theorem flatMap_group_perm (key : α → Path) (items : List α) :
    ((group key items).flatMap (·.2)).Perm items := by
  induction items using List.reverseRecOn with
  | nil => exact .refl _
  | append_singleton items a ih =>
    rw [group_append_singleton]
    exact ((flatMap_alter_perm _ _ a).trans (ih.cons a)).trans
      (List.perm_append_singleton a items).symm

end PathMap

end TreeLint
