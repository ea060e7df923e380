/-
TreeLint/Diff/Script.lean

Edit scripts between two lists.  A script keeps, removes and adds entries;
read without its additions it is the old list, read without its removals the
new one.

`script` keeps as many entries as any script can.  It walks both lists from
the front with a table of the longest common subsequences of all pairs of
suffixes: equal heads are kept, otherwise the side whose rest has more in
common is passed over, the old side first when both have the same.
-/

namespace TreeLint.Diff

/-- One entry of a script. -/
inductive Edit (α : Type) where
  | keep (entry : α)
  | remove (entry : α)
  | add (entry : α)
  deriving DecidableEq, Repr

namespace Edit

/-- The entry as the old list has it. -/
def old? : Edit α → Option α
  | keep a => some a
  | remove a => some a
  | add _ => none

/-- The entry as the new list has it. -/
def new? : Edit α → Option α
  | keep a => some a
  | remove _ => none
  | add a => some a

/-- Whether the entry is in both lists. -/
def isKept : Edit α → Bool
  | keep _ => true
  | remove _ => false
  | add _ => false

end Edit

/-- The list that a script starts from. -/
def oldEntries (script : List (Edit α)) : List α := script.filterMap Edit.old?

/-- The list that a script leads to. -/
def newEntries (script : List (Edit α)) : List α := script.filterMap Edit.new?

variable {α : Type} [DecidableEq α]

/-! ### Common subsequences -/

/-- For `x` in front of an old list, the lengths of the longest common subsequences with each
suffix of a new list, longest suffix first; `below` holds those for the old list alone. -/
def lcsRow (x : α) : List α → (below : List Nat) → List Nat
  | [], _ => [0]
  | y :: ys, below =>
    let rest := lcsRow x ys below.tail
    (if x = y then below.tail.headD 0 + 1 else max (below.headD 0) (rest.headD 0)) :: rest

/-- The rows of all suffixes of an old list, longest suffix first. -/
def lcsTable : List α → List α → List (List Nat)
  | [], new => [List.replicate (new.length + 1) 0]
  | x :: xs, new =>
    let rows := lcsTable xs new
    lcsRow x new (rows.headD []) :: rows

/-! ### Scripts -/

/-- The entry in a row and column of a table. -/
def cell (rows : List (List Nat)) (row column : Nat) : Nat :=
  ((rows[row]?.getD [])[column]?).getD 0

/-- Walks two lists along the table of their suffixes. -/
def walk : (old new : List α) → (rows : List (List Nat)) → List (Edit α)
  | [], new, _ => new.map .add
  | x :: xs, [], _ => (x :: xs).map .remove
  | x :: xs, y :: ys, rows =>
    if x = y then .keep x :: walk xs ys (rows.tail.map List.tail)
    else if cell rows 0 1 ≤ cell rows 1 0 then .remove x :: walk xs (y :: ys) rows.tail
    else .add y :: walk (x :: xs) ys (rows.map List.tail)
termination_by old new => old.length + new.length

/-- A script from one list to another that keeps as much as possible. -/
def script (old new : List α) : List (Edit α) :=
  walk old new (lcsTable old new)

end TreeLint.Diff
