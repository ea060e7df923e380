/-
TreeLint/Symbol/Members.lean

Members by container.  An index lists the numbers of the members of each
container, in the order in which they were entered.  A member may be entered
before its container is declared, and the container need not be declared at
all.

An index *mirrors* a list of symbols if it lists under every container the
numbers of the symbols that have it (`Mirrors`).  It still does after one more
symbol (`Mirrors.append_singleton`).
-/
import TreeLint.Symbol.Basic

namespace TreeLint

/-- The numbers of the members of each container, in the order of first mention. -/
abbrev MemberIndex := List (SymbolId × List SymbolId)

namespace MemberIndex

/-- The members listed under a container; none if it was never mentioned. -/
def membersOf (index : MemberIndex) (container : SymbolId) : List SymbolId :=
  (index.lookup container).getD []

/-- The index with one more member, the last one under its container. -/
def enter : (index : MemberIndex) → (container member : SymbolId) → MemberIndex
  | [], container, member => [(container, [member])]
  | (c, members) :: rest, container, member =>
    if c = container then (c, members ++ [member]) :: rest
    else (c, members) :: enter rest container member

/-- The index with one more symbol, which is a member if it has a container. -/
def add (index : MemberIndex) (s : Symbol) : MemberIndex :=
  match s.container with
  | none => index
  | some container => index.enter container s.id

/-- The index lists under every container the numbers of the symbols that have it, in their
order. -/
def Mirrors (index : MemberIndex) (symbols : List Symbol) : Prop :=
  ∀ container,
    index.membersOf container = (symbols.filter (·.container == some container)).map (·.id)

theorem membersOf_cons (c : SymbolId) (members : List SymbolId) (rest : MemberIndex)
    (container : SymbolId) :
    membersOf ((c, members) :: rest) container
      = if container = c then members else rest.membersOf container := by
  rw [membersOf, List.lookup_cons]
  by_cases h : container = c
  · rw [if_pos h, beq_iff_eq.mpr h]
    rfl
  · rw [if_neg h, beq_eq_false_iff_ne.mpr h]
    rfl

/-- A new member is listed under its container and under no other one. -/
theorem membersOf_enter (index : MemberIndex) (container member c : SymbolId) :
    (index.enter container member).membersOf c
      = if c = container then index.membersOf c ++ [member] else index.membersOf c := by
  induction index with
  | nil => exact membersOf_cons container [member] [] c
  | cons entry rest ih =>
    obtain ⟨c', members⟩ := entry
    rw [enter]
    by_cases h : c' = container
    · subst h
      rw [if_pos rfl, membersOf_cons, membersOf_cons]
      split <;> rfl
    · rw [if_neg h, membersOf_cons, membersOf_cons, ih]
      by_cases hc : c = c'
      · rw [if_pos hc, if_pos hc, if_neg (hc ▸ h)]
      · rw [if_neg hc, if_neg hc]

theorem membersOf_add (index : MemberIndex) (s : Symbol) (c : SymbolId) :
    (index.add s).membersOf c
      = if s.container = some c then index.membersOf c ++ [s.id] else index.membersOf c := by
  rw [add]
  cases s.container with
  | none => rw [if_neg (Option.some_ne_none c).symm]
  | some container => simp only [membersOf_enter, Option.some.injEq, eq_comm]

theorem mirrors_nil : Mirrors [] [] := fun _ => rfl

/-- The index is kept up by adding each symbol that is appended. -/
theorem Mirrors.append_singleton {index : MemberIndex} {symbols : List Symbol}
    (h : index.Mirrors symbols) (s : Symbol) : (index.add s).Mirrors (symbols ++ [s]) := by
  intro container
  rw [membersOf_add, h container, List.filter_append, List.map_append]
  by_cases hs : s.container = some container
  · simp [hs]
  · simp [hs]

end MemberIndex

end TreeLint
