/-
TreeLint/Proofs/Symbol/Table.lean

Symbols and their numbers.

A table lists its symbols by increasing number, and every symbol is found under
its number.  So the symbols of a table are those that are found under their own
numbers, and a search through the table comes to the symbol with the least number
(`SymbolTable.find?_eq_some_iff`).  The members of a container, which are looked up
in the index, are the symbols that have it (`SymbolTable.members_eq_filter`).
-/
import TreeLint.Symbol.Table
import Mathlib.Data.List.Basic

namespace TreeLint

namespace SymbolTable

variable {t : SymbolTable} {id : SymbolId} {s : Symbol}

theorem get?_of_mem (h : s ∈ t.symbols.toList) : t.get? s.id = some s := by
  obtain ⟨i, hi, rfl⟩ := List.mem_iff_getElem.mp h
  rw [Array.length_toList] at hi
  rw [Array.getElem_toList, get?, t.id_eq i hi, Array.getElem?_eq_getElem hi]

theorem mem_of_get?_eq_some (h : t.get? id = some s) : s ∈ t.symbols.toList :=
  Array.mem_toList_iff.mpr (Array.mem_of_getElem? h)

theorem pairwise_id (t : SymbolTable) : t.symbols.toList.Pairwise (·.id < ·.id) := by
  rw [List.pairwise_iff_getElem]
  intro i j hi hj hij
  rw [Array.getElem_toList, Array.getElem_toList, t.id_eq, t.id_eq]
  exact hij

/-- The members of a container are those symbols of the table that have it. -/
theorem members_eq_filter (t : SymbolTable) (container : SymbolId) :
    t.members container = t.symbols.toList.filter (·.container == some container) := by
  rw [members, memberIds, t.mirrors container, List.filterMap_map]
  -- looking up the number of a symbol of the table gives the symbol back
  have hget : ∀ s ∈ t.symbols.toList.filter (·.container == some container),
      (t.get? ∘ Symbol.id) s = some s := fun s hs => get?_of_mem (List.mem_of_mem_filter hs)
  rw [List.filterMap_congr hget, List.filterMap_some]

theorem mem_members_iff {container : SymbolId} :
    s ∈ t.members container ↔ t.get? s.id = some s ∧ s.container = some container := by
  rw [members_eq_filter, List.mem_filter, beq_iff_eq]
  exact and_congr_left' ⟨get?_of_mem, mem_of_get?_eq_some⟩

/-- The symbol is in the table and is declared before all others there that have the property. -/
structure IsFirst (t : SymbolTable) (P : Symbol → Prop) (s : Symbol) : Prop where
  known : t.get? s.id = some s
  holds : P s
  first : ∀ s', t.get? s'.id = some s' → P s' → s.id ≤ s'.id

theorem IsFirst.unique {P : Symbol → Prop} {s' : Symbol} (h : t.IsFirst P s)
    (h' : t.IsFirst P s') : s = s' := by
  have hid : s.id = s'.id :=
    Nat.le_antisymm (h.first s' h'.known h'.holds) (h'.first s h.known h.holds)
  exact Option.some.inj (h.known.symm.trans (hid ▸ h'.known))

/-- A search through the table comes to the first symbol that has the property. -/
theorem find?_eq_some_iff {p : Symbol → Bool} :
    t.symbols.toList.find? p = some s ↔ t.IsFirst (p · = true) s := by
  have hfound : ∀ {s}, t.symbols.toList.find? p = some s → t.IsFirst (p · = true) s := by
    intro s h
    refine ⟨get?_of_mem (List.mem_of_find?_eq_some h), List.find?_some h, ?_⟩
    obtain ⟨-, before, after, hsplit, hbefore⟩ := List.find?_eq_some_iff_append.mp h
    intro s' hs' hp
    have hmem := mem_of_get?_eq_some hs'
    have hpairwise := t.pairwise_id
    rw [hsplit] at hmem hpairwise
    rw [List.pairwise_append, List.pairwise_cons] at hpairwise
    rcases List.mem_append.mp hmem with hmem | hmem
    · have hnot := hbefore s' hmem
      rw [hp] at hnot
      cases hnot
    · rcases List.mem_cons.mp hmem with rfl | hmem
      · exact Nat.le_refl _
      · exact Nat.le_of_lt (hpairwise.2.1.1 s' hmem)
  constructor
  · exact hfound
  · intro h
    have hsome : (t.symbols.toList.find? p).isSome = true :=
      List.find?_isSome.mpr ⟨s, mem_of_get?_eq_some h.known, h.holds⟩
    obtain ⟨s', hs'⟩ := Option.isSome_iff_exists.mp hsome
    rw [hs', h.unique (hfound hs')]

end SymbolTable

end TreeLint
