/-
TreeLint/Text/Lines.lean

Pieces of a text between separators, and the lines of a text.

Two texts are compared by their `entries`: there a line ends with a line feed
or with a carriage return and a line feed, and nothing more is taken off.
-/

namespace TreeLint.Text

/-- The pieces of a list between its separators; there is always at least one. -/
def splitAt (separator : Char) : List Char → List (List Char)
  | [] => [[]]
  | c :: rest =>
    if c = separator then [] :: splitAt separator rest
    else match splitAt separator rest with
      | [] => [[c]]
      | piece :: pieces => (c :: piece) :: pieces

/-- Drops every trailing element that satisfies `p`. -/
def trimEnd (p : Char → Bool) : List Char → List Char
  | [] => []
  | c :: rest =>
    match trimEnd p rest with
    | [] => if p c then [] else [c]
    | kept => c :: kept

/-- A line without one carriage return at its end. -/
def dropReturn (line : List Char) : List Char :=
  if line.getLast? = some '\r' then line.dropLast else line

/-- The lines that pieces between line feeds stand for; the last piece has no line feed after it,
and is no line if it is empty. -/
def entriesOfPieces : List (List Char) → List String
  | [] => []
  | [last] => if last.isEmpty then [] else [String.ofList last]
  | piece :: next :: pieces =>
    String.ofList (dropReturn piece) :: entriesOfPieces (next :: pieces)

/-- The lines of a text for comparison. -/
def entries (text : String) : List String :=
  entriesOfPieces (splitAt '\n' text.toList)

end TreeLint.Text
