/-
TreeLint/Proofs/Scan.lean

Scans that stop at the first fault.

Whether an entry of a list is faulty may depend on the entries before it, so a
notion of fault is a relation between the entries before, the entry and the
fault.  A list is *faultless*, or it has a *first fault*; never both.

A loop that goes through a list with a state, and stops with an error, finds
the first fault if every step of it does: if a step fails exactly on a faulty
entry, as long as the state goes with the entries before.  One such step lemma
gives both sides of what the whole loop does (`foldlM_eq_error_iff`,
`exists_foldlM_eq_ok_iff`).  A loop that goes on after a fault, and remembers
it, finds the first one as well (`Remembers`).
-/
import Mathlib.Data.List.Induction

namespace TreeLint

variable {α ε σ : Type}

/-- No entry of the list is faulty. -/
def Faultless (Faulty : List α → α → ε → Prop) (xs : List α) : Prop :=
  ∀ before x after, xs = before ++ x :: after → ∀ e, ¬ Faulty before x e

/-- The first faulty entry of the list has the fault `e`. -/
def FirstFault (Faulty : List α → α → ε → Prop) (xs : List α) (e : ε) : Prop :=
  ∃ before x after, xs = before ++ x :: after ∧ Faultless Faulty before ∧ Faulty before x e

variable {Faulty : List α → α → ε → Prop} {xs : List α} {x : α} {e : ε}

/-! ### Lists that grow at their end -/

theorem faultless_nil : Faultless Faulty [] := by
  intro before x after h
  cases before <;> cases h

/-- An entry of a list with one more at its end is that one, or it is an entry of the list. -/
theorem eq_append_cons_of_append_singleton_eq {before after : List α} {y : α}
    (h : xs ++ [x] = before ++ y :: after) :
    (xs = before ∧ x = y) ∨ ∃ rest, xs = before ++ y :: rest := by
  rcases List.eq_nil_or_concat after with rfl | ⟨rest, z, rfl⟩
  · obtain ⟨hxs, hx⟩ := List.append_inj' h rfl
    exact .inl ⟨hxs, (List.cons.inj hx).1⟩
  · rw [List.concat_eq_append, ← List.cons_append, ← List.append_assoc] at h
    exact .inr ⟨rest, (List.append_inj' h rfl).1⟩

theorem faultless_append_singleton :
    Faultless Faulty (xs ++ [x]) ↔ Faultless Faulty xs ∧ ∀ e, ¬ Faulty xs x e := by
  constructor
  · intro h
    refine ⟨?_, h xs x [] rfl⟩
    rintro before y after rfl
    exact h before y (after ++ [x]) (by rw [List.append_assoc, List.cons_append])
  · rintro ⟨hxs, hx⟩ before y after h
    -- only the last entry has all of `xs` before it
    rcases eq_append_cons_of_append_singleton_eq h with ⟨rfl, rfl⟩ | ⟨rest, hrest⟩
    · exact hx
    · exact hxs before y rest hrest

theorem firstFault_append_singleton :
    FirstFault Faulty (xs ++ [x]) e ↔
      FirstFault Faulty xs e ∨ Faultless Faulty xs ∧ Faulty xs x e := by
  constructor
  · rintro ⟨before, y, after, h, hbefore, hy⟩
    rcases eq_append_cons_of_append_singleton_eq h with ⟨rfl, rfl⟩ | ⟨rest, hrest⟩
    · exact .inr ⟨hbefore, hy⟩
    · exact .inl ⟨before, y, rest, hrest, hbefore, hy⟩
  · rintro (⟨before, y, after, rfl, hbefore, hy⟩ | ⟨hxs, hx⟩)
    · exact ⟨before, y, after ++ [x], by rw [List.append_assoc, List.cons_append], hbefore, hy⟩
    · exact ⟨xs, x, [], rfl, hxs, hx⟩

/-- A list with a first fault is not faultless. -/
theorem FirstFault.not_faultless (h : FirstFault Faulty xs e) : ¬ Faultless Faulty xs := by
  obtain ⟨before, x, after, rfl, -, hx⟩ := h
  exact fun hxs => hxs before x after rfl e hx

/-! ### Faults that are remembered -/

/-- The remembered fault is the first one. -/
structure Remembers (Faulty : List α → α → ε → Prop) (xs : List α) (fault : Option ε) :
    Prop where
  some_iff : ∀ e, fault = some e ↔ FirstFault Faulty xs e
  none_iff : fault = none ↔ Faultless Faulty xs

theorem remembers_nil : Remembers Faulty [] (none : Option ε) where
  some_iff e := by
    constructor
    · intro h
      cases h
    · intro h
      exact absurd faultless_nil h.not_faultless
  none_iff := ⟨fun _ => faultless_nil, fun _ => rfl⟩

/-- A fault is remembered by keeping what there was before. -/
theorem Remembers.append_singleton {fault fault' : Option ε} (h : Remembers Faulty xs fault)
    (hx : ∀ e, fault' = some e ↔ Faulty xs x e) :
    Remembers Faulty (xs ++ [x]) (fault <|> fault') := by
  rcases fault with - | e'
  · have hxs : Faultless Faulty xs := h.none_iff.mp rfl
    have hnone : ∀ e, ¬ FirstFault Faulty xs e := fun e he => he.not_faultless hxs
    refine ⟨?_, ?_⟩
    · intro e
      show fault' = some e ↔ _
      rw [firstFault_append_singleton, hx e]
      exact ⟨fun he => .inr ⟨hxs, he⟩, fun he => (he.resolve_left (hnone e)).2⟩
    · show fault' = none ↔ _
      rw [faultless_append_singleton, Option.eq_none_iff_forall_ne_some]
      constructor
      · intro hne
        exact ⟨hxs, fun e he => hne e ((hx e).mpr he)⟩
      · intro hfaultless e he
        exact hfaultless.2 e ((hx e).mp he)
  · have hxs : ¬ Faultless Faulty xs := ((h.some_iff e').mp rfl).not_faultless
    refine ⟨?_, ?_⟩
    · intro e
      rw [firstFault_append_singleton, ← h.some_iff e]
      exact ⟨.inl, fun he => he.resolve_right fun hboth => hxs hboth.1⟩
    · rw [faultless_append_singleton]
      constructor
      · intro he
        cases he
      · intro hfaultless
        exact absurd hfaultless.1 hxs

/-! ### Loops -/

section Loops

/-- What one step of a loop has to satisfy, `Goes` saying which states go with which entries: it
fails exactly on a faulty entry, with its fault, and goes on with a state that goes with one entry
more. -/
structure FindsFaults (Faulty : List α → α → ε → Prop) (Goes : List α → σ → Prop)
    (step : σ → α → Except ε σ) : Prop where
  error : ∀ {before s}, Goes before s → ∀ x e, step s x = .error e ↔ Faulty before x e
  ok : ∀ {before s}, Goes before s → ∀ x s', step s x = .ok s' → Goes (before ++ [x]) s'

variable {Goes : List α → σ → Prop} {step : σ → α → Except ε σ} {start : σ}

/-- What a loop comes to, entry by entry. -/
theorem FindsFaults.foldlM (h : FindsFaults Faulty Goes step) (hstart : Goes [] start)
    (xs : List α) :
    match xs.foldlM step start with
    | .error e => FirstFault Faulty xs e
    | .ok s => Faultless Faulty xs ∧ Goes xs s := by
  induction xs using List.reverseRecOn with
  | nil => exact ⟨faultless_nil, hstart⟩
  | append_singleton xs x ih =>
    rw [List.foldlM_append]
    rcases hs : xs.foldlM step start with e | s
    · rw [hs] at ih
      exact firstFault_append_singleton.mpr (.inl ih)
    · rw [hs] at ih
      obtain ⟨hxs, hgoes⟩ := ih
      -- the loop is past `xs`, with a state that goes with it, and one step is left
      show match (step s x >>= fun s => pure s : Except ε σ) with
        | .error e => FirstFault Faulty (xs ++ [x]) e
        | .ok s => Faultless Faulty (xs ++ [x]) ∧ Goes (xs ++ [x]) s
      rcases hx : step s x with e | s'
      · exact firstFault_append_singleton.mpr (.inr ⟨hxs, (h.error hgoes x e).mp hx⟩)
      · refine ⟨faultless_append_singleton.mpr ⟨hxs, ?_⟩, h.ok hgoes x s' hx⟩
        intro e he
        rw [(h.error hgoes x e).mpr he] at hx
        cases hx

/-- A loop comes to its end exactly on a faultless list. -/
theorem FindsFaults.exists_foldlM_eq_ok_iff (h : FindsFaults Faulty Goes step)
    (hstart : Goes [] start) :
    (∃ s, xs.foldlM step start = .ok s) ↔ Faultless Faulty xs := by
  have hfold := h.foldlM hstart xs
  rcases hs : xs.foldlM step start with e | s
  · rw [hs] at hfold
    constructor
    · rintro ⟨s, hs⟩
      cases hs
    · intro hxs
      exact absurd hxs hfold.not_faultless
  · rw [hs] at hfold
    exact ⟨fun _ => hfold.1, fun _ => ⟨s, rfl⟩⟩

/-- A loop fails with the first fault. -/
theorem FindsFaults.foldlM_eq_error_iff (h : FindsFaults Faulty Goes step)
    (hstart : Goes [] start) : xs.foldlM step start = .error e ↔ FirstFault Faulty xs e := by
  constructor
  · intro he
    have hfold := h.foldlM hstart xs
    rw [he] at hfold
    exact hfold
  · rintro ⟨before, x, after, rfl, hbefore, hx⟩
    -- the loop gets past the entries before, and fails here
    obtain ⟨s, hs⟩ := (h.exists_foldlM_eq_ok_iff hstart).mpr hbefore
    have hgoes : Goes before s := by
      have hfold := h.foldlM hstart before
      rw [hs] at hfold
      exact hfold.2
    rw [List.foldlM_append, hs]
    show (x :: after).foldlM step s = .error e
    rw [List.foldlM_cons, (h.error hgoes x e).mpr hx]
    rfl

end Loops

end TreeLint
