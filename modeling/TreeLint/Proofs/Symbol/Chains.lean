/-
TreeLint/Proofs/Symbol/Chains.lean

Chains of symbols.

A *trail* is a chain of symbols that comes to an end: every link on the way is
found in the table, and the last symbol has no further link.  Which link a symbol
has is a parameter.  A trail is determined by its first link, so it does not come
back to a symbol (`Trail.nodup`), and it has no more symbols than the table
(`Trail.length_le`).

An override goes back to the first symbol along its chain of overridden members
that is no override (`GoesBackTo`).  Up to there the chain is a trail.  So the
walk along the chain does not come to an override that it has seen before it comes
to that symbol: what the walk finds is all that there is to find
(`overrideRoot?_eq_some_iff`).
-/
import TreeLint.Proofs.Symbol.Table
import Mathlib.Data.List.Perm.Subperm

namespace TreeLint

namespace SymbolTable

variable {t : SymbolTable} {next : Symbol → Option SymbolId} {link : Option SymbolId}
variable {id : SymbolId} {s r : Symbol} {trail : List Symbol}

/-! ### Trails -/

/-- The symbols from a link to the end of the chain, where `next` is the link from each symbol to
the one after it. -/
inductive Trail (t : SymbolTable) (next : Symbol → Option SymbolId) :
    Option SymbolId → List Symbol → Prop
  | done : Trail t next none []
  | step {id : SymbolId} {s : Symbol} {trail : List Symbol} :
      t.get? id = some s → Trail t next (next s) trail → Trail t next (some id) (s :: trail)

namespace Trail

/-- A link leads to one trail only. -/
theorem unique {trail' : List Symbol} (h : Trail t next link trail)
    (h' : Trail t next link trail') : trail = trail' := by
  induction h generalizing trail' with
  | done =>
    cases h'
    rfl
  | step hs _ ih =>
    cases h' with
    | step hs' h' =>
      obtain rfl := Option.some.inj (hs.symm.trans hs')
      rw [ih h']

/-- What comes after a symbol of a trail is the trail from its link. -/
theorem exists_suffix (h : Trail t next link trail) (hs : s ∈ trail) :
    ∃ rest, Trail t next (next s) rest ∧ rest.length < trail.length := by
  induction h with
  | done => cases hs
  | @step id m rest _ hrest ih =>
    rcases List.mem_cons.mp hs with rfl | hs
    · exact ⟨rest, hrest, Nat.lt_succ_self _⟩
    · obtain ⟨rest', hrest', hlt⟩ := ih hs
      exact ⟨rest', hrest', Nat.lt_succ_of_lt hlt⟩

/-- A trail does not come back to a symbol. -/
theorem nodup (h : Trail t next link trail) : trail.Nodup := by
  induction h with
  | done => exact List.nodup_nil
  | @step id s rest _ hrest ih =>
    refine List.nodup_cons.mpr ⟨?_, ih⟩
    intro hs
    -- the trail after the second occurrence would be as long as the one after the first
    obtain ⟨rest', hrest', hlt⟩ := hrest.exists_suffix hs
    rw [hrest'.unique hrest] at hlt
    exact Nat.lt_irrefl _ hlt

/-- The symbols of a trail are those that are found under their numbers. -/
theorem get?_eq_some (h : Trail t next link trail) (hs : s ∈ trail) : t.get? s.id = some s := by
  induction h with
  | done => cases hs
  | @step id m rest hm _ ih =>
    rcases List.mem_cons.mp hs with rfl | hs
    · rwa [id_eq_of_get?_eq_some hm]
    · exact ih hs

theorem length_le (h : Trail t next link trail) : trail.length ≤ t.size := by
  have hsubset : trail ⊆ t.symbols.toList := by
    induction h with
    | done => exact List.nil_subset _
    | step hs _ ih => exact List.cons_subset.mpr ⟨mem_of_get?_eq_some hs, ih⟩
  have hle := (h.nodup.subperm hsubset).length_le
  rwa [Array.length_toList] at hle

end Trail

/-! ### Following links -/

/-- The symbol that a first link and then `n` more links lead to. -/
def after? (t : SymbolTable) (next : Symbol → Option SymbolId) :
    (n : Nat) → (link : Option SymbolId) → Option Symbol
  | 0, link => link.bind t.get?
  | n + 1, link => (link.bind t.get?).bind fun s => after? t next n (next s)

theorem after?_succ (hs : t.get? id = some s) (n : Nat) :
    t.after? next (n + 1) (some id) = t.after? next n (next s) := by
  rw [after?, Option.bind_some, hs, Option.bind_some]

/-! ### Overrides -/

/-- The first symbol that is no override on the chain of overridden members from a link on. -/
inductive FirstNonOverride (t : SymbolTable) : Option SymbolId → Symbol → Prop
  | here {id : SymbolId} {r : Symbol} :
      t.get? id = some r → r.isOverride = false → FirstNonOverride t (some id) r
  | onward {id : SymbolId} {s r : Symbol} :
      t.get? id = some s → s.isOverride = true → FirstNonOverride t s.overridden r →
        FirstNonOverride t (some id) r

/-- The chain of overridden members of `s`, which has at least one link, comes to `r`, which is no
override, and before `r` it has overrides only. -/
def GoesBackTo (t : SymbolTable) (s r : Symbol) : Prop := t.FirstNonOverride s.overridden r

/-- The link from an override to the member it overrides. -/
def overrideLink (s : Symbol) : Option SymbolId := if s.isOverride then s.overridden else none

theorem firstNonOverride?_eq (t : SymbolTable) (seen : List SymbolId) (link : Option SymbolId) :
    t.firstNonOverride? seen link = (link.bind t.get?).bind fun s =>
      if s.isOverride then
        if s.id ∈ seen then none else t.firstNonOverride? (s.id :: seen) s.overridden
      else some s := by
  rw [firstNonOverride?]
  split
  · rename_i hlink
    rw [hlink]
    rfl
  · rename_i s hlink
    simp [hlink]

/-- What the walk finds is there, whatever it takes to have been seen. -/
theorem FirstNonOverride.of_walk {seen : List SymbolId}
    (h : t.firstNonOverride? seen link = some r) : t.FirstNonOverride link r := by
  induction seen, link using firstNonOverride?.induct (t := t) with
  | case1 seen link hlink =>
    rw [firstNonOverride?_eq, hlink] at h
    cases h
  | case2 seen link s hlink hoverride hseen =>
    rw [firstNonOverride?_eq, hlink, Option.bind_some, if_pos hoverride, if_pos hseen] at h
    cases h
  | case3 seen link s hlink hoverride hseen _ ih =>
    rw [firstNonOverride?_eq, hlink, Option.bind_some, if_pos hoverride, if_neg hseen] at h
    obtain ⟨id, rfl, hs⟩ := Option.bind_eq_some_iff.mp hlink
    exact .onward hs hoverride (ih h)
  | case4 seen link s hlink hoverride =>
    rw [firstNonOverride?_eq, hlink, Option.bind_some, if_neg hoverride] at h
    obtain ⟨id, rfl, hs⟩ := Option.bind_eq_some_iff.mp hlink
    obtain rfl := Option.some.inj h
    exact .here hs (Bool.not_eq_true _ ▸ hoverride)

/-- The chain up to the first symbol that is no override is a trail, and the walk comes to its end
unless it takes an override on it to have been seen. -/
theorem FirstNonOverride.exists_trail (h : t.FirstNonOverride link r) :
    ∃ trail, Trail t overrideLink link trail ∧
      ∀ seen : List SymbolId, (∀ s ∈ trail, s.isOverride = true → s.id ∉ seen) →
        t.firstNonOverride? seen link = some r := by
  induction h with
  | @here id r hr hroot =>
    have hlink : overrideLink r = none := if_neg (Bool.not_eq_true _ ▸ hroot)
    refine ⟨[r], .step hr (hlink ▸ .done), ?_⟩
    intro seen _
    rw [firstNonOverride?_eq, Option.bind_some, hr, Option.bind_some, hroot]
    rfl
  | @onward id s r hs hoverride _ ih =>
    obtain ⟨trail, htrail, hwalk⟩ := ih
    have hlink : overrideLink s = s.overridden := if_pos hoverride
    have hstep : Trail t overrideLink (some id) (s :: trail) := .step hs (hlink ▸ htrail)
    refine ⟨s :: trail, hstep, ?_⟩
    intro seen hseen
    have hrest : t.firstNonOverride? (s.id :: seen) s.overridden = some r := by
      apply hwalk
      intro s' hs' hoverride'
      rw [List.mem_cons, not_or]
      refine ⟨?_, hseen s' (List.mem_cons_of_mem _ hs') hoverride'⟩
      -- a trail does not come back to `s`, and other symbols have other numbers
      intro hid
      have hs'' := hstep.get?_eq_some (List.mem_cons_of_mem _ hs')
      rw [hid, hstep.get?_eq_some List.mem_cons_self] at hs''
      obtain rfl := Option.some.inj hs''
      exact (List.nodup_cons.mp hstep.nodup).1 hs'
    rw [firstNonOverride?_eq, Option.bind_some, hs, Option.bind_some, if_pos hoverride,
      if_neg (hseen s List.mem_cons_self hoverride), hrest]

theorem overrideRoot?_eq_some_iff (hs : t.get? s.id = some s) :
    t.overrideRoot? s.id = some r ↔ t.GoesBackTo s r := by
  rw [overrideRoot?, hs]
  show t.firstNonOverride? [s.id] s.overridden = some r ↔ _
  constructor
  · exact .of_walk
  · intro h
    obtain ⟨trail, htrail, hwalk⟩ := h.exists_trail
    apply hwalk
    intro s' hs' hoverride hid
    -- if `s` is an override on its own trail, then the trail begins anew behind it
    have hknown := htrail.get?_eq_some hs'
    rw [List.mem_singleton.mp hid, hs] at hknown
    obtain rfl := Option.some.inj hknown
    obtain ⟨rest, hrest, hlt⟩ := htrail.exists_suffix hs'
    have hlink : overrideLink s = s.overridden := if_pos hoverride
    rw [hlink] at hrest
    rw [hrest.unique htrail] at hlt
    exact Nat.lt_irrefl _ hlt

end SymbolTable

end TreeLint
