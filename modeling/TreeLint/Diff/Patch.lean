/-
TreeLint/Diff/Patch.lean

Patches: what differs between two texts, line by line, in hunks.  A hunk
holds changes with up to three unchanged lines around them; changes whose
surroundings touch share a hunk.

The head of a hunk gives, for either text, the number of its first line and
the count of its lines.  Where it has no line of a text, the number is that of
the line before it.
-/
import TreeLint.Diff.Script
import TreeLint.Path

namespace TreeLint.Diff

/-- The number of unchanged lines shown before and after changes. -/
def context : Nat := 3

/-- Part of a script, with the numbers of lines of either text before it. -/
structure Hunk where
  oldBefore : Nat
  newBefore : Nat
  edits : List (Edit String)
  deriving DecidableEq, Repr

namespace Hunk

/-- The number of lines of the old text. -/
def oldCount (h : Hunk) : Nat := (oldEntries h.edits).length

/-- The number of lines of the new text. -/
def newCount (h : Hunk) : Nat := (newEntries h.edits).length

/-- The number shown for the first of `count` lines that follow `before` others. -/
def lineNumber (before count : Nat) : Nat := if 0 < count then before + 1 else before

/-- The number shown for the first line of the old text. -/
def oldStart (h : Hunk) : Nat := lineNumber h.oldBefore h.oldCount

/-- The number shown for the first line of the new text. -/
def newStart (h : Hunk) : Nat := lineNumber h.newBefore h.newCount

/-- The head of the hunk. -/
def head (h : Hunk) : String :=
  "@@ -" ++ toString h.oldStart ++ "," ++ toString h.oldCount ++ " +" ++ toString h.newStart
    ++ "," ++ toString h.newCount ++ " @@"

/-- A line of the hunk, after its mark. -/
def line : Edit String → String
  | .keep l => " " ++ l
  | .remove l => "-" ++ l
  | .add l => "+" ++ l

/-- The hunk as text. -/
def render (h : Hunk) : String :=
  String.join ((h.head :: h.edits.map line).map (· ++ "\n"))

end Hunk

/-! ### From scripts to hunks -/

/-- A range of places in a script, the last one not included. -/
structure Range where
  start : Nat
  stop : Nat
  deriving DecidableEq, Repr

/-- The places of the changes in a script, counted from `place`. -/
def changes : (place : Nat) → List (Edit α) → List Nat
  | _, [] => []
  | place, e :: rest =>
    if e.isKept then changes (place + 1) rest else place :: changes (place + 1) rest

/-- A change with the lines around it, in a script of `length` entries. -/
def around (length place : Nat) : Range :=
  ⟨place - context, min (place + context + 1) length⟩

/-- Ranges in order, from `current` on, those that touch made one. -/
def joinRanges (current : Range) : List Range → List Range
  | [] => [current]
  | r :: rest =>
    if r.start ≤ current.stop then joinRanges ⟨current.start, r.stop⟩ rest
    else current :: joinRanges r rest

/-- The ranges of a script that hunks are made of. -/
def ranges (script : List (Edit α)) : List Range :=
  match (changes 0 script).map (around script.length) with
  | [] => []
  | r :: rest => joinRanges r rest

/-- The hunk in a range of a script. -/
def hunkAt (script : List (Edit String)) (r : Range) : Hunk where
  oldBefore := (oldEntries (script.take r.start)).length
  newBefore := (newEntries (script.take r.start)).length
  edits := (script.drop r.start).take (r.stop - r.start)

/-- The hunks of a script. -/
def hunks (script : List (Edit String)) : List Hunk :=
  (ranges script).map (hunkAt script)

/-! ### Patches -/

/-- The hunks between two texts. -/
def between (old new : String) : List Hunk :=
  hunks (script (Text.entries old) (Text.entries new))

/-- The patch of a file, from its old text to its new one. -/
def patch (file : Path) (old new : String) : String :=
  "--- a/" ++ file.text ++ "\n+++ b/" ++ file.text ++ "\n"
    ++ String.join ((between old new).map Hunk.render)

end TreeLint.Diff
