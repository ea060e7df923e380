/-
TreeLint/Symbol/Table.lean

Symbol tables.  A table numbers its symbols in the order of insertion, and
every symbol carries its own number (`id_eq`).  Beside the symbols a table has
an index of the members of each container, which is kept up by every insertion
and mirrors the symbols (`mirrors`); members are looked up there.

Two chains run through a table: from a symbol to its container, and from an
override to the member it overrides.  Both may break off or run in a circle.
The walk along the containers counts its steps, and gives up when it has made
more of them than there are symbols.  The walk along the overridden members
keeps the overrides that it has seen, and gives up when it meets one again;
there are only so many to be seen (`length_unseen_cons_lt`).
-/
import TreeLint.Symbol.Members

namespace TreeLint

/-- The symbols of a compilation, each at the place its number says, and the index of their
members. -/
structure SymbolTable where
  symbols : Array Symbol := #[]
  index : MemberIndex := []
  id_eq : ∀ i, (h : i < symbols.size) → symbols[i].id = i := by simp
  mirrors : index.Mirrors symbols.toList := by exact MemberIndex.mirrors_nil

/-- Why a list of symbols is not a table. -/
inductive SymbolError where
  | misnumbered (index : Nat) (id : SymbolId)
  | missingReference (index : Nat) (target : SymbolId)
  deriving DecidableEq, Repr

/-- The message shown for the error. -/
def SymbolError.message : SymbolError → String
  | misnumbered i id => "symbol at index " ++ toString i ++ " has id " ++ toString id
  | missingReference i r =>
    "symbol " ++ toString i ++ " refers to missing symbol " ++ toString r

namespace SymbolTable

/-- The table without symbols. -/
def empty : SymbolTable := {}

instance : Inhabited SymbolTable := ⟨empty⟩

/-- The number of symbols. -/
def size (t : SymbolTable) : Nat := t.symbols.size

/-- The symbol of a number. -/
def get? (t : SymbolTable) (id : SymbolId) : Option Symbol := t.symbols[id]?

/-- The table with one more symbol, which gets the next number; that number fits in 32 bits while
there are fewer than `2 ^ 32` symbols.  The container of the symbol need not be there yet. -/
def insert (t : SymbolTable) (s : Symbol) : SymbolTable where
  symbols := t.symbols.push { s with id := t.size }
  index := t.index.add { s with id := t.size }
  id_eq i h := by
    rw [Array.getElem_push]
    split
    · exact t.id_eq i _
    · rename_i hi
      have hs : i < t.symbols.size + 1 := by simpa using h
      exact Nat.le_antisymm (Nat.le_of_not_lt hi) (Nat.le_of_lt_succ hs)
  mirrors := by
    rw [Array.toList_push]
    exact t.mirrors.append_singleton _

/-- The numbers of the members of a container, in the order of declaration. -/
def memberIds (t : SymbolTable) (container : SymbolId) : List SymbolId :=
  t.index.membersOf container

/-- The members of a container, in the order of declaration. -/
def members (t : SymbolTable) (container : SymbolId) : List Symbol :=
  (t.memberIds container).filterMap t.get?

/-- The first symbol marked as a well-known type. -/
def specialType? (t : SymbolTable) (special : SpecialType) : Option Symbol :=
  t.symbols.toList.find? (·.special == some special)

/-! ### Chains -/

/-- The names from a symbol outwards along the chain of containers, to at most `bound` names. -/
def containerNames? (t : SymbolTable) : (bound : Nat) → Option SymbolId → Option (List String)
  | _, none => some []
  | 0, some _ => none
  | bound + 1, some id => do
    let s ← t.get? id
    let outer ← containerNames? t bound s.container
    return s.name :: outer

/-- The structural key of a symbol; none when its chain of containers does not end. -/
def key? (t : SymbolTable) (id : SymbolId) : Option SymbolKey := do
  let s ← t.get? id
  let outer ← t.containerNames? t.size s.container
  return ⟨".".intercalate (s.name :: outer).reverse, s.kind, s.parameterCount⟩

theorem id_eq_of_get?_eq_some {t : SymbolTable} {id : SymbolId} {s : Symbol}
    (h : t.get? id = some s) : s.id = id := by
  obtain ⟨hlt, rfl⟩ := Array.getElem?_eq_some_iff.mp h
  exact t.id_eq id hlt

/-- The numbers of the symbols that have not been seen. -/
def unseen (t : SymbolTable) (seen : List SymbolId) : List SymbolId :=
  (List.range t.size).filter (· ∉ seen)

theorem unseen_cons (t : SymbolTable) (seen : List SymbolId) (id : SymbolId) :
    t.unseen (id :: seen) = (t.unseen seen).filter (· ≠ id) := by
  simp [unseen, List.filter_filter]

/-- Seeing one more symbol leaves fewer to be seen. -/
theorem length_unseen_cons_lt {t : SymbolTable} {seen : List SymbolId} {link : Option SymbolId}
    {s : Symbol} (h : link.bind t.get? = some s) (hseen : s.id ∉ seen) :
    (t.unseen (s.id :: seen)).length < (t.unseen seen).length := by
  obtain ⟨id, -, hid⟩ := Option.bind_eq_some_iff.mp h
  have hlt : s.id < t.size := id_eq_of_get?_eq_some hid ▸ (Array.getElem?_eq_some_iff.mp hid).1
  have hmem : s.id ∈ t.unseen seen := by simp [unseen, hlt, hseen]
  rw [unseen_cons, List.length_filter_lt_length_iff_exists]
  exact ⟨s.id, hmem, by simp⟩

/-- The first symbol that is no override along the chain of overridden members, beginning at a
given link.  The walk gives up when it comes to an override that it has seen. -/
def firstNonOverride? (t : SymbolTable) (seen : List SymbolId) (link : Option SymbolId) :
    Option Symbol :=
  match h : link.bind t.get? with
  | none => none
  | some s =>
    if s.isOverride then
      if hseen : s.id ∈ seen then none
      else
        have _ := length_unseen_cons_lt h hseen
        firstNonOverride? t (s.id :: seen) s.overridden
    else some s
termination_by (t.unseen seen).length

/-- The member that an override goes back to.  The symbol itself counts as seen from the start, but
it is not asked whether it is an override. -/
def overrideRoot? (t : SymbolTable) (id : SymbolId) : Option Symbol := do
  let s ← t.get? id
  t.firstNonOverride? [s.id] s.overridden

/-! ### Tables from lists -/

/-- The first reference of a symbol at or past `count`, its container being looked at first. -/
def danglingReference? (count : Nat) (s : Symbol) : Option SymbolId :=
  (s.container.toList ++ s.overridden.toList).find? (count ≤ ·)

/-- Inserts symbols after checking each one's number and references. -/
def insertChecked (count : Nat) : SymbolTable → List Symbol → Except SymbolError SymbolTable
  | t, [] => .ok t
  | t, s :: rest =>
    if s.id ≠ t.size then .error (.misnumbered t.size s.id)
    else
      match danglingReference? count s with
      | some r => .error (.missingReference t.size r)
      | none => insertChecked count (t.insert s) rest

/-- The table of a list of symbols, or the first violation in list order. -/
def ofList (symbols : List Symbol) : Except SymbolError SymbolTable :=
  insertChecked symbols.length empty symbols

end SymbolTable

end TreeLint
