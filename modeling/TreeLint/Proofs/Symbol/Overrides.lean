/-
TreeLint/Proofs/Symbol/Overrides.lean

What an override goes back to.

The chain of overridden members from a symbol *stops* where it does not come to one
more override: at a symbol that is none, or at nothing, where a link is missing or
leads to no symbol (`Stops`).  There is at most one such place (`Stops.unique`), and
a chain without any runs through overrides for ever (`exists_stops_or_forall`).

The first two of these cases are those in which the walk along the chain ends
without meeting an override again.  So the walk comes to a symbol exactly if the
chain stops there, and to none exactly if the chain stops at nothing or does not stop
(`overrideRoot?_resolves`).
-/
import TreeLint.Proofs.Symbol.Chains
import Mathlib.Order.Nat

namespace TreeLint

namespace SymbolTable

variable {t : SymbolTable} {link : Option SymbolId} {id : SymbolId} {s r : Symbol} {n n' : Nat}
variable {stop stop' : Option Symbol}

/-- From a link on, the first `n` symbols on the chain of overridden members are overrides. -/
def OverridesBefore (t : SymbolTable) (link : Option SymbolId) (n : Nat) : Prop :=
  ∀ i < n, ∃ s, t.after? (·.overridden) i link = some s ∧ s.isOverride = true

/-- From a link on, the chain of overridden members goes through `n` overrides and then comes to
`stop`, which is no override: another symbol, or nothing. -/
structure Stops (t : SymbolTable) (link : Option SymbolId) (n : Nat) (stop : Option Symbol) :
    Prop where
  before : t.OverridesBefore link n
  stop_eq : t.after? (·.overridden) n link = stop
  no_override : ∀ s, stop = some s → s.isOverride = false

/-! ### Where chains stop -/

theorem overridesBefore_zero (t : SymbolTable) (link : Option SymbolId) :
    t.OverridesBefore link 0 := fun _ hi => absurd hi (Nat.not_lt_zero _)

theorem overridesBefore_succ (hs : t.get? id = some s) :
    t.OverridesBefore (some id) (n + 1) ↔
      s.isOverride = true ∧ t.OverridesBefore s.overridden n := by
  constructor
  · intro h
    obtain ⟨s', hs', hoverride⟩ := h 0 n.succ_pos
    obtain rfl := Option.some.inj (hs.symm.trans hs')
    refine ⟨hoverride, fun i hi => ?_⟩
    rw [← after?_succ hs]
    exact h (i + 1) (Nat.succ_lt_succ hi)
  · rintro ⟨hoverride, h⟩ i hi
    cases i with
    | zero => exact ⟨s, hs, hoverride⟩
    | succ i =>
      rw [after?_succ hs]
      exact h i (Nat.lt_of_succ_lt_succ hi)

/-- A chain does not go on through overrides past the place where it stops. -/
theorem Stops.le (h : t.Stops link n stop) (hbefore : t.OverridesBefore link n') : n' ≤ n := by
  by_contra hlt
  obtain ⟨s, hs, hoverride⟩ := hbefore n (Nat.lt_of_not_le hlt)
  rw [h.no_override s (h.stop_eq.symm.trans hs)] at hoverride
  cases hoverride

theorem Stops.unique (h : t.Stops link n stop) (h' : t.Stops link n' stop') : stop = stop' := by
  obtain rfl : n = n' := Nat.le_antisymm (h'.le h.before) (h.le h'.before)
  exact h.stop_eq.symm.trans h'.stop_eq

/-- A chain that does not stop runs through overrides for ever. -/
theorem exists_stops_or_forall (t : SymbolTable) (link : Option SymbolId) :
    (∃ n stop, t.Stops link n stop) ∨ ∀ n, t.OverridesBefore link n := by
  rw [or_iff_not_imp_right, not_forall]
  intro hnot
  classical
  -- the chain stops just before the first number of symbols that are not all overrides
  obtain ⟨n, hn⟩ : ∃ n, Nat.find hnot = n + 1 := by
    refine Nat.exists_eq_succ_of_ne_zero fun hzero => ?_
    exact (Nat.find_eq_zero hnot).mp hzero (t.overridesBefore_zero link)
  have hbefore : t.OverridesBefore link n := by
    by_contra hbefore
    exact Nat.find_min hnot (hn ▸ n.lt_succ_self) hbefore
  refine ⟨n, _, hbefore, rfl, fun s hs => ?_⟩
  have hlast := hn ▸ Nat.find_spec hnot
  by_contra hoverride
  refine hlast fun i hi => ?_
  rcases Nat.lt_succ_iff_lt_or_eq.mp hi with hi | rfl
  · exact hbefore i hi
  · exact ⟨s, hs, Bool.not_eq_false _ ▸ hoverride⟩

/-! ### What the walk comes to -/

/-- The first symbol that is no override is the one where the chain stops. -/
theorem firstNonOverride_iff_stops :
    t.FirstNonOverride link r ↔ ∃ n, t.Stops link n (some r) := by
  constructor
  · intro h
    induction h with
    | @here id r hr hroot =>
      refine ⟨0, t.overridesBefore_zero _, hr, ?_⟩
      rintro _ ⟨⟩
      exact hroot
    | @onward id s r hs hoverride _ ih =>
      obtain ⟨n, hbefore, hstop, hroot⟩ := ih
      exact ⟨n + 1, (overridesBefore_succ hs).mpr ⟨hoverride, hbefore⟩,
        (after?_succ hs n).trans hstop, hroot⟩
  · rintro ⟨n, h⟩
    induction n generalizing link with
    | zero =>
      obtain ⟨id, rfl, hr⟩ := Option.bind_eq_some_iff.mp h.stop_eq
      exact .here hr (h.no_override r rfl)
    | succ n ih =>
      obtain ⟨s, hs, -⟩ := h.before 0 n.succ_pos
      obtain ⟨id, rfl, hs⟩ := Option.bind_eq_some_iff.mp hs
      obtain ⟨hoverride, hbefore⟩ := (overridesBefore_succ hs).mp h.before
      refine .onward hs hoverride (ih ⟨hbefore, ?_, h.no_override⟩)
      exact (after?_succ hs n).symm.trans h.stop_eq

/-- The link from the symbol of a number to the member it overrides. -/
def overridden? (t : SymbolTable) (id : SymbolId) : Option SymbolId :=
  (t.get? id).bind (·.overridden)

theorem overrideRoot?_eq_some_iff_stops (t : SymbolTable) (id : SymbolId) (r : Symbol) :
    t.overrideRoot? id = some r ↔ ∃ n, t.Stops (t.overridden? id) n (some r) := by
  rw [← firstNonOverride_iff_stops, overridden?]
  cases hm : t.get? id with
  | none =>
    constructor
    · intro h
      rw [overrideRoot?, hm] at h
      cases h
    · intro h
      cases h
  | some m =>
    obtain rfl := id_eq_of_get?_eq_some hm
    exact overrideRoot?_eq_some_iff hm

/-- **Overrides are resolved on every table.**  A symbol goes back to `r` exactly if the chain from
its overridden member on stops at `r`, which is then the first symbol there that is no override.
It goes back to none exactly if the chain breaks off before it comes to such a symbol, or runs
through overrides for ever. -/
theorem overrideRoot?_resolves (t : SymbolTable) (id : SymbolId) :
    (∀ r, t.overrideRoot? id = some r ↔ ∃ n, t.Stops (t.overridden? id) n (some r)) ∧
      (t.overrideRoot? id = none ↔
        (∃ n, t.Stops (t.overridden? id) n none) ∨
          ∀ n, t.OverridesBefore (t.overridden? id) n) := by
  have hsome := t.overrideRoot?_eq_some_iff_stops id
  refine ⟨hsome, ?_⟩
  constructor
  · intro hnone
    refine (t.exists_stops_or_forall (t.overridden? id)).imp_left ?_
    rintro ⟨n, stop, h⟩
    cases stop with
    | none => exact ⟨n, h⟩
    | some r =>
      have hr := (hsome r).mpr ⟨n, h⟩
      rw [hnone] at hr
      cases hr
  · intro h
    rw [Option.eq_none_iff_forall_ne_some]
    intro r hr
    obtain ⟨n, hn⟩ := (hsome r).mp hr
    rcases h with ⟨n', hn'⟩ | hendless
    · cases hn.unique hn'
    · exact Nat.not_succ_le_self n (hn.le (hendless (n + 1)))

-- the first method is not itself part of the circle that its chain runs into
example :
    let method (target : SymbolId) : Symbol :=
      ({ name := "Equals", kind := .method } : Symbol).overriding (some target)
    (((empty.insert (method 1)).insert (method 2)).insert (method 1)).overrideRoot? 0 = none := by
  cbv

end SymbolTable

end TreeLint
