/-
TreeLint/Text/LineIndex.lean

Positions in a text, for people.  Offsets count UTF-8 bytes; lines and
columns count from 1, and a column counts characters.

An index lists the offsets at which the lines of a text start, and the line of
an offset is found in that list by bisection.  An offset past the end is read as
the end of the text.  An offset inside a character has no character column, so
its column counts bytes instead.  The text of a line leaves out its line feed and
any carriage returns before it.

Where a start is looked up, there may be none, and where a difference is taken,
it may lie below zero.  Both are faults here, so that it can be said that they do
not happen; `position` and `lineText?` are what is left when there are no faults.
-/
import TreeLint.Text.Lines

namespace TreeLint.Text

/-! ### Parts of a text -/

/-- The characters behind the first `n` bytes; none if `n` bytes end inside a character, or if
there are fewer. -/
def dropBytes? : (n : Nat) → List Char → Option (List Char)
  | 0, cs => some cs
  | _ + 1, [] => none
  | n + 1, c :: rest =>
    if c.utf8Size ≤ n + 1 then dropBytes? (n + 1 - c.utf8Size) rest else none
termination_by structural _ cs => cs

/-- The characters of the first `n` bytes; none if `n` bytes end inside a character, or if there
are fewer. -/
def takeBytes? : (n : Nat) → List Char → Option (List Char)
  | 0, _ => some []
  | _ + 1, [] => none
  | n + 1, c :: rest =>
    if c.utf8Size ≤ n + 1 then (takeBytes? (n + 1 - c.utf8Size) rest).map (c :: ·) else none
termination_by structural _ cs => cs

/-- The part of a text between two offsets; none if they are in the wrong order, or one of them is
inside a character or past the end. -/
def slice? (text : String) (start stop : Nat) : Option (List Char) :=
  if start ≤ stop then (dropBytes? start text.toList).bind (takeBytes? (stop - start)) else none

/-! ### Bisection -/

/-- How a search for a value ends: at a place where it stands, or at the place where it would
belong. -/
inductive Found where
  | hit (place : Nat)
  | miss (place : Nat)
  deriving DecidableEq, Repr

/-- Searches the places from `low` on and before `high`. -/
def bisect (values : Array Nat) (value low high : Nat) (hhigh : high ≤ values.size) : Found :=
  if hlow : low < high then
    let middle := low + (high - low) / 2
    have hmiddle : middle < high := by omega
    if values[middle] = value then .hit middle
    else if values[middle] < value then bisect values value (middle + 1) high hhigh
    else bisect values value low middle (Nat.le_trans (Nat.le_of_lt hmiddle) hhigh)
  else .miss low
termination_by high - low

/-! ### The index -/

/-- A line and a column, both counted from 1. -/
structure Position where
  line : Nat
  column : Nat
  deriving DecidableEq, Repr, Inhabited

/-- What must not happen when a position is looked up. -/
inductive IndexFault where
  | noStart (line : Nat)
  | belowZero (minuend subtrahend : Nat)
  deriving DecidableEq, Repr

/-- A difference that is not expected to lie below zero. -/
def difference (m n : Nat) : Except IndexFault Nat :=
  if n ≤ m then .ok (m - n) else .error (.belowZero m n)

/-- The offsets behind line feeds, in characters the first of which stands at `offset`. -/
def startsFrom (offset : Nat) : List Char → List Nat
  | [] => []
  | c :: rest =>
    let next := offset + c.utf8Size
    if c = '\n' then next :: startsFrom next rest else startsFrom next rest

/-- A text with the offsets at which its lines start. -/
structure LineIndex where
  text : String
  starts : Array Nat
  deriving DecidableEq, Repr, Inhabited

namespace LineIndex

/-- The index of a text. -/
def ofText (text : String) : LineIndex :=
  ⟨text, (0 :: startsFrom 0 text.toList).toArray⟩

variable (x : LineIndex)

/-- The start of a line, counted from 0. -/
def start (line : Nat) : Except IndexFault Nat :=
  match x.starts[line]? with
  | some start => .ok start
  | none => .error (.noStart line)

/-- The line of an offset, counted from 0. -/
def lineOf (offset : Nat) : Except IndexFault Nat :=
  match bisect x.starts offset 0 x.starts.size (Nat.le_refl _) with
  | .hit line => .ok line
  | .miss next => difference next 1

/-- The position of a byte offset. -/
def position (offset : Nat) : Except IndexFault Position := do
  let offset := min offset x.text.utf8ByteSize
  let line ← x.lineOf offset
  let start ← x.start line
  let bytes ← difference offset start
  let column := ((slice? x.text start offset).map List.length).getD bytes
  return ⟨line + 1, column + 1⟩

/-- The end of a line, counted from 0: its line feed, or the end of the text. -/
def stop (line : Nat) : Except IndexFault Nat :=
  match x.starts[line + 1]? with
  | some next => difference next 1
  | none => .ok x.text.utf8ByteSize

/-- The line of a given number, counted from 1. -/
def lineText : Nat → Except IndexFault (Option String)
  | 0 => .ok none
  | n + 1 =>
    match x.starts[n]? with
    | none => .ok none
    | some start => do
      let stop ← x.stop n
      return (slice? x.text start stop).map fun line => String.ofList (trimEnd (· == '\r') line)

end LineIndex

/-- The position of a byte offset. -/
def position (text : String) (offset : Nat) : Position :=
  ((LineIndex.ofText text).position offset).toOption.getD ⟨0, 0⟩

/-- The line of a given number, counted from 1. -/
def lineText? (text : String) (line : Nat) : Option String :=
  ((LineIndex.ofText text).lineText line).toOption.join

end TreeLint.Text
