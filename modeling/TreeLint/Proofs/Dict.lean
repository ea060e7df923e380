/-
TreeLint/Proofs/Dict.lean

Small maps: what an update does to one value and to the keys, and what a merge
does.

A map is determined by its keys in their order and by the values of these
(`Dict.eq_of_keys_eq`).  A merge has the keys of the first map and then the new
ones of the second (`Dict.keys_mergeWith`), and the value of a key is

    (d.mergeWith op layer).get? k = Option.merge op (d.get? k) (layer.get? k).

So merging is associative when the operation on values is
(`Dict.mergeWith_assoc`), and the empty map is neutral.
-/
import TreeLint.Dict
import Mathlib.Data.List.Nodup

namespace TreeLint

theorem lookup_cons_eq {α β : Type} [DecidableEq α] (e : α × β) (rest : List (α × β)) (k : α) :
    (e :: rest).lookup k = if k = e.1 then some e.2 else rest.lookup k := by
  rw [List.lookup_cons]
  by_cases h : k = e.1
  · rw [if_pos h, beq_iff_eq.mpr h]
  · rw [if_neg h, beq_eq_false_iff_ne.mpr h]

namespace Dict

variable {α β : Type}

/-! ### One value -/

theorem lookup_exchange (key k : String) (f : Option α → α) (entries : List (String × α)) :
    (exchange key f entries).lookup k
      = if k = key then some (f (entries.lookup key)) else entries.lookup k := by
  induction entries with
  | nil =>
    rw [exchange, lookup_cons_eq]
    rfl
  | cons entry rest ih =>
    obtain ⟨k', v⟩ := entry
    rw [exchange, lookup_cons_eq, lookup_cons_eq]
    by_cases hkey : k' = key
    · subst hkey
      rw [if_pos rfl, if_pos rfl, lookup_cons_eq]
      split <;> rfl
    · rw [if_neg hkey, if_neg (Ne.symm hkey), lookup_cons_eq, ih]
      by_cases h : k = k'
      · rw [if_pos h, if_pos h, if_neg (h ▸ hkey)]
      · rw [if_neg h, if_neg h]

theorem get?_alter (d : Dict α) (key k : String) (f : Option α → α) :
    (d.alter key f).get? k = if k = key then some (f (d.get? key)) else d.get? k :=
  lookup_exchange key k f d.entries

theorem get?_map (d : Dict α) (f : α → β) (k : String) :
    (d.map f).get? k = (d.get? k).map f := by
  show (d.entries.map fun e => (e.1, f e.2)).lookup k = (d.entries.lookup k).map f
  induction d.entries with
  | nil => rfl
  | cons entry rest ih =>
    rw [List.map_cons, lookup_cons_eq, lookup_cons_eq, ih]
    split <;> rfl

/-- A key that is not there has no value. -/
theorem lookup_eq_none {entries : List (String × α)} {k : String}
    (h : k ∉ entries.map (·.1)) : entries.lookup k = none := by
  rw [List.lookup_eq_none_iff]
  intro entry hentry
  rw [bne_iff_ne]
  rintro rfl
  exact h (List.mem_map_of_mem hentry)

theorem mem_entries_iff (d : Dict α) {k : String} {v : α} :
    (k, v) ∈ d.entries ↔ d.get? k = some v := by
  obtain ⟨entries, hnodup⟩ := d
  show _ ↔ entries.lookup k = some v
  induction entries with
  | nil => constructor <;> intro h <;> cases h
  | cons entry rest ih =>
    obtain ⟨k', w⟩ := entry
    obtain ⟨hmem, hnodup⟩ := List.nodup_cons.mp hnodup
    rw [lookup_cons_eq, List.mem_cons, ih hnodup, Prod.mk.injEq]
    by_cases hk : k = k'
    · subst hk
      rw [if_pos rfl, lookup_eq_none hmem]
      simp [eq_comm]
    · simp [hk]

/-- Maps with the same keys in the same order and the same values are the same. -/
theorem eq_of_keys_eq {d d' : Dict α} (hkeys : d.keys = d'.keys)
    (hget : ∀ k, d.get? k = d'.get? k) : d = d' := by
  obtain ⟨entries, hnodup⟩ := d
  obtain ⟨entries', hnodup'⟩ := d'
  simp only [mk.injEq, keys, get?] at *
  induction entries generalizing entries' with
  | nil => exact (List.map_eq_nil_iff.mp hkeys.symm).symm
  | cons entry rest ih =>
    obtain ⟨entry', rest', rfl, hkey, hkeys'⟩ := List.map_eq_cons_iff.mp hkeys.symm
    obtain ⟨k', v⟩ := entry
    obtain ⟨k, v'⟩ := entry'
    obtain rfl : k' = k := hkey.symm
    obtain ⟨hmem, hrest⟩ := List.nodup_cons.mp hnodup
    obtain ⟨hmem', hrest'⟩ := List.nodup_cons.mp hnodup'
    simp only [lookup_cons_eq] at hget
    have hvalue : v = v' := by
      have hhead := hget k'
      rw [if_pos rfl, if_pos rfl] at hhead
      exact Option.some.inj hhead
    rw [hvalue, ih hrest rest' hrest' hkeys'.symm]
    intro k
    -- the key of the first entries has no further one
    by_cases hk : k = k'
    · rw [hk, lookup_eq_none hmem, lookup_eq_none hmem']
    · have htail := hget k
      rwa [if_neg hk, if_neg hk] at htail

/-! ### Merging -/

section Merging

variable (op : α → α → α)

theorem get?_insertWith (d : Dict α) (key k : String) (v : α) :
    (d.insertWith op key v).get? k
      = if k = key then Option.merge op (d.get? key) (some v) else d.get? k := by
  rw [insertWith, get?_alter]
  cases d.get? key <;> rfl

theorem keys_insertWith (d : Dict α) (key : String) (v : α) :
    (d.insertWith op key v).keys = if key ∈ d.keys then d.keys else d.keys ++ [key] :=
  map_fst_exchange key _ d.entries

/-- What merging does to one value. -/
theorem get?_mergeWith (d layer : Dict α) (k : String) :
    (d.mergeWith op layer).get? k = Option.merge op (d.get? k) (layer.get? k) := by
  obtain ⟨entries, hnodup⟩ := layer
  show (entries.foldl _ d).get? k = Option.merge op (d.get? k) (entries.lookup k)
  induction entries generalizing d with
  | nil => exact Option.merge_none_right.symm
  | cons entry rest ih =>
    obtain ⟨hmem, hnodup⟩ := List.nodup_cons.mp hnodup
    rw [List.foldl_cons, ih _ hnodup, get?_insertWith, lookup_cons_eq]
    by_cases hk : k = entry.1
    · subst hk
      rw [if_pos rfl, if_pos rfl, lookup_eq_none hmem, Option.merge_none_right]
    · rw [if_neg hk, if_neg hk]

/-- The new keys come behind those that are there. -/
theorem keys_mergeWith (d layer : Dict α) :
    (d.mergeWith op layer).keys = d.keys ++ layer.keys.filter (· ∉ d.keys) := by
  obtain ⟨entries, hnodup⟩ := layer
  show (entries.foldl _ d).keys = d.keys ++ (entries.map (·.1)).filter (· ∉ d.keys)
  induction entries generalizing d with
  | nil => exact (List.append_nil _).symm
  | cons entry rest ih =>
    obtain ⟨hmem, hnodup⟩ := List.nodup_cons.mp hnodup
    rw [List.foldl_cons, ih _ hnodup, keys_insertWith, List.map_cons]
    by_cases hkey : entry.1 ∈ d.keys
    · rw [if_pos hkey, List.filter_cons_of_neg (by simpa using hkey)]
    · -- the key is not given again, so it may as well count as one that is there
      have hrest : (rest.map (·.1)).filter (· ∉ d.keys ++ [entry.1])
          = (rest.map (·.1)).filter (· ∉ d.keys) := by
        apply List.filter_congr
        intro k hk
        have hne : k ≠ entry.1 := by
          rintro rfl
          exact hmem hk
        simp [hne]
      rw [if_neg hkey, List.filter_cons_of_pos (by simpa using hkey), hrest, List.append_assoc]
      rfl

@[simp] theorem mergeWith_empty (d : Dict α) : d.mergeWith op {} = d := rfl

@[simp] theorem empty_mergeWith (d : Dict α) : ({} : Dict α).mergeWith op d = d := by
  refine eq_of_keys_eq ?_ fun k => ?_
  · rw [keys_mergeWith]
    exact List.filter_eq_self.mpr fun _ _ => rfl
  · rw [get?_mergeWith]
    exact Option.merge_none_left

/-- **Merging is associative** if the operation on values is. -/
theorem mergeWith_assoc [Std.Associative op] (a b c : Dict α) :
    (a.mergeWith op b).mergeWith op c = a.mergeWith op (b.mergeWith op c) := by
  refine eq_of_keys_eq ?_ fun k => ?_
  · simp only [keys_mergeWith, List.filter_append, List.filter_filter, List.append_assoc]
    congr 2
    apply List.filter_congr
    intro k _
    -- a key of the last map is new if it is in neither of the others
    by_cases ha : k ∈ a.keys <;> simp [ha]
  · simp only [get?_mergeWith]
    exact Std.Associative.assoc _ _ _

end Merging

instance : Std.Associative fun _ new : α => new := ⟨fun _ _ _ => rfl⟩

theorem insertAll_assoc (a b c : Dict α) :
    (a.insertAll b).insertAll c = a.insertAll (b.insertAll c) :=
  mergeWith_assoc _ a b c

theorem appendAll_assoc (a b c : Dict (List α)) :
    (a.appendAll b).appendAll c = a.appendAll (b.appendAll c) :=
  mergeWith_assoc _ a b c

@[simp] theorem insertAll_empty (d : Dict α) : d.insertAll {} = d := rfl

@[simp] theorem empty_insertAll (d : Dict α) : ({} : Dict α).insertAll d = d :=
  empty_mergeWith _ d

@[simp] theorem appendAll_empty (d : Dict (List α)) : d.appendAll {} = d := rfl

@[simp] theorem empty_appendAll (d : Dict (List α)) : ({} : Dict (List α)).appendAll d = d :=
  empty_mergeWith _ d

end Dict

end TreeLint
