/-
TreeLint/Yaml/Scalar.lean

Reading scalars.  Each reader starts behind the mark that opens the scalar
and gives its text with what is left.

Plain and quoted scalars are read as words with gaps between them.  A gap
within a line stands for itself; a gap with line ends in it is folded: one
line end is a blank, and more are the ones after the first.  Block scalars
keep their lines, or fold those that are not indented further.
-/
import TreeLint.Text.Literal
import TreeLint.Yaml.Cell

namespace TreeLint.Yaml

/-! ### Gaps -/

/-- What stands between two words of a scalar: the blanks before the first line end, and the line
ends.  The gap may have been opened by an escaped line end, which counts for nothing. -/
structure Gap where
  blanks : List Char := []
  breaks : List Char := []
  escaped : Bool := false
  deriving DecidableEq, Repr

namespace Gap

/-- No gap. -/
def empty : Gap := ⟨[], [], false⟩

/-- A gap that an escaped line end opens. -/
def afterEscape : Gap := ⟨[], [], true⟩

/-- Whether the gap goes on to another line. -/
def isBroken (g : Gap) : Bool := g.escaped || !g.breaks.isEmpty

/-- Whether there is a gap at all. -/
def isEmpty (g : Gap) : Bool := !g.isBroken && g.blanks.isEmpty

/-- The gap with one more blank or line end; blanks at the start of a line do not count. -/
def add (g : Gap) (c : Char) : Gap :=
  if isBreak c then { g with breaks := g.breaks ++ [c] }
  else if g.isBroken then g
  else { g with blanks := g.blanks ++ [c] }

/-- What the gap stands for. -/
def text (g : Gap) : List Char :=
  if g.escaped then g.breaks
  else match g.breaks with
    | [] => g.blanks
    | ['\n'] => [' ']
    | '\n' :: more => more
    | breaks => breaks

end Gap

/-! ### Plain scalars -/

/-- The marks of flow collections. -/
def flowMarks : List Char := [',', '[', ']', '\x7b', '\x7d']

/-- Whether a character ends a plain scalar, given what follows it. -/
def endsPlain (flow : Bool) (c : Char) (rest : List Cell) : Bool :=
  (c == ':' && atSpace rest) || (flow && flowMarks.contains c)

/-- Whether a colon stands where it can neither end a plain scalar nor be a part of it. -/
def isStray (flow : Bool) (c : Char) (rest : List Cell) : Bool :=
  flow && c == ':' && nextIn ('?' :: flowMarks) rest

/-- A plain scalar, of which a gap has just been read; the words after a gap start at a column of
at least `margin` outside flow collections.  Also gives whether a line end was read after the last
word. -/
def plain (flow : Bool) (margin : Nat) : Gap → List Cell → Option (List Char × Bool × List Cell)
  | gap, [] => some ([], gap.isBroken, [])
  | gap, c :: rest =>
    if isSpace c.char then
      if gap.isBroken && c.char == '\t' && c.column < margin then none
      else plain flow margin (gap.add c.char) rest
    else if !gap.isEmpty
        && (c.char == '#' || atMark (c :: rest) || (!flow && c.column < margin)) then
      some ([], gap.isBroken, c :: rest)
    else if isStray flow c.char rest then none
    else if endsPlain flow c.char rest then some ([], gap.isBroken, c :: rest)
    else
      match plain flow margin .empty rest with
      | none => none
      | some (text, broken, left) => some (gap.text ++ c.char :: text, broken, left)

/-- The characters that start something other than a plain scalar. -/
def indicators : List Char :=
  ['-', '?', ':', ',', '[', ']', '\x7b', '\x7d', '#', '&', '*', '!', '|', '>', '\'', '"', '%', '@',
    '\x60']

/-- Whether a plain scalar starts with a character, given what follows it. -/
def startsPlain (flow : Bool) (c : Char) (rest : List Cell) : Bool :=
  !(isSpace c || indicators.contains c)
    || (c == '-' && !nextIn [' ', '\t'] rest)
    || (!flow && (c == '?' || c == ':') && !atSpace rest)

/-! ### Quoted scalars -/

/-- The rest of a single-quoted scalar, in which a quote is written twice. -/
def singleQuoted : Gap → List Cell → Option (List Char × List Cell)
  | _, [] => none
  | gap, [c] => if c.char == '\'' then some (gap.text, []) else none
  | gap, c :: d :: rest =>
    if isSpace c.char then singleQuoted (gap.add c.char) (d :: rest)
    else if atMark (c :: d :: rest) then none
    else if c.char == '\'' then
      if d.char == '\'' then
        (singleQuoted .empty rest).map fun (text, left) => (gap.text ++ '\'' :: text, left)
      else some (gap.text, d :: rest)
    else
      (singleQuoted .empty (d :: rest)).map fun (text, left) =>
        (gap.text ++ c.char :: text, left)

/-- The character of a one-character escape in a double-quoted scalar. -/
def shortEscape? : Char → Option Char
  | '0' => some '\x00'
  | 'a' => some '\x07'
  | 'b' => some '\x08'
  | 't' | '\t' => some '\t'
  | 'n' => some '\n'
  | 'v' => some '\x0b'
  | 'f' => some '\x0c'
  | 'r' => some '\r'
  | 'e' => some '\x1b'
  | ' ' => some ' '
  | '"' => some '"'
  | '/' => some '/'
  | '\\' => some '\\'
  | 'N' => some '\u0085'
  | '_' => some '\u00a0'
  | 'L' => some '\u2028'
  | 'P' => some '\u2029'
  | _ => none

/-- The number of digits of a hexadecimal escape. -/
def hexLength? : Char → Option Nat
  | 'x' => some 2
  | 'u' => some 4
  | 'U' => some 8
  | _ => none

/-- The rest of a double-quoted scalar.  Inside a hexadecimal escape, `awaited` digits are still to
come and `code` is the number of those before. -/
def doubleQuoted : (awaited code : Nat) → Gap → List Cell → Option (List Char × List Cell)
  | _, _, _, [] => none
  | awaited + 1, code, gap, c :: rest =>
    match Text.Literal.hexDigit? c.char with
    | none => none
    | some digit =>
      if awaited = 0 then
        match Text.Literal.scalar? (code * 16 + digit) with
        | none => none
        | some char =>
          (doubleQuoted 0 0 .empty rest).map fun (text, left) => (gap.text ++ char :: text, left)
      else doubleQuoted awaited (code * 16 + digit) gap rest
  | 0, _, gap, [c] => if c.char == '"' then some (gap.text, []) else none
  | 0, _, gap, c :: d :: rest =>
    if isSpace c.char then doubleQuoted 0 0 (gap.add c.char) (d :: rest)
    else if atMark (c :: d :: rest) then none
    else if c.char == '"' then some (gap.text, d :: rest)
    else if c.char == '\\' then
      if isBreak d.char then
        (doubleQuoted 0 0 .afterEscape rest).map fun (text, left) => (gap.text ++ text, left)
      else
        match hexLength? d.char, shortEscape? d.char with
        | some length, _ => doubleQuoted length 0 gap rest
        | none, some char =>
          (doubleQuoted 0 0 .empty rest).map fun (text, left) => (gap.text ++ char :: text, left)
        | none, none => none
    else
      (doubleQuoted 0 0 .empty (d :: rest)).map fun (text, left) =>
        (gap.text ++ c.char :: text, left)

/-! ### Block scalars -/

/-- What becomes of the line ends after the last line of a block scalar. -/
inductive Chomping where
  | strip | clip | keep
  deriving DecidableEq, Repr

/-- What stands behind the mark of a block scalar: the depth of its lines, where it is given, and
what becomes of the last line ends. -/
structure BlockHeader where
  depth : Option Nat
  chomping : Chomping
  deriving DecidableEq, Repr

/-- The sign that tells what becomes of the last line ends. -/
def chomping? : List Cell → Option (Chomping × List Cell)
  | c :: rest =>
    if c.char == '+' then some (.keep, rest)
    else if c.char == '-' then some (.strip, rest)
    else none
  | [] => none

/-- The digit that gives the depth of a block scalar; a zero is none. -/
def depth? : List Cell → Option (Option Nat × List Cell)
  | [] => some (none, [])
  | c :: rest =>
    if c.char == '0' then none
    else if c.char.isDigit then some (some (c.char.toNat - '0'.toNat), rest)
    else some (none, c :: rest)

/-- The sign and the digit behind the mark of a block scalar, in either order. -/
def blockHeader? (cs : List Cell) : Option (BlockHeader × List Cell) :=
  match chomping? cs with
  | some (chomping, rest) => (depth? rest).map fun (depth, rest) => (⟨depth, chomping⟩, rest)
  | none =>
    match depth? cs with
    | none => none
    | some (none, rest) => some (⟨none, .clip⟩, rest)
    | some (depth, rest) =>
      match chomping? rest with
      | some (chomping, rest) => some (⟨depth, chomping⟩, rest)
      | none => some (⟨depth, .clip⟩, rest)

/-- The empty lines before a line of a block scalar: their ends, the greatest column reached, and
what is left.  Lines are indented by `indent` columns, where that is known. -/
def emptyLines (indent : Option Nat) : (reached : Nat) → List Cell →
    Option (List Char × Nat × List Cell)
  | reached, [] => some ([], reached, [])
  | reached, c :: rest =>
    let outside := indent.all (c.column < ·)
    if c.char == ' ' && outside then emptyLines indent reached rest
    else if c.char == '\t' && outside then none
    else if isBreak c.char then
      (emptyLines indent (max reached c.column) rest).map fun (breaks, reached, left) =>
        (c.char :: breaks, reached, left)
    else some ([], max reached c.column, c :: rest)

/-- What joins two lines of a block scalar: the end of the first one, and the ends of the empty
lines between them.  Where lines are folded and neither is indented further, one line end becomes
a blank. -/
def joint (folded : Bool) (ending empties : List Char) : List Char :=
  if folded && ending == ['\n'] then
    if empties.isEmpty then [' '] else empties
  else ending ++ empties

/-- The lines of a block scalar that are indented by `indent` columns, read after `ending` and
`empties` and, if `deeper`, after a line that is indented further.  Also gives the line ends after
the last line. -/
def blockLines (folding : Bool) (indent : Nat) :
    (bound : Nat) → (deeper : Bool) → (ending empties : List Char) → List Cell →
      Option (List Char × List Char × List Char × List Cell)
  | 0, _, ending, empties, cs => some ([], ending, empties, cs)
  | _ + 1, _, ending, empties, [] => some ([], ending, empties, [])
  | bound + 1, deeper, ending, empties, c :: rest =>
    if c.column ≠ indent then some ([], ending, empties, c :: rest)
    else
      let deep := isBlank c.char
      let start := joint (folding && !deeper && !deep) ending empties
      let line := ((c :: rest).takeWhile (!isBreak ·.char)).map (·.char)
      let after := (c :: rest).dropWhile (!isBreak ·.char)
      let ending := (after.take 1).map (·.char)
      match emptyLines (some indent) 0 (after.drop 1) with
      | none => none
      | some (empties, _, left) =>
        (blockLines folding indent bound deep ending empties left).map
          fun (text, ending, empties, left) => (start ++ line ++ text, ending, empties, left)

/-- The rest of a block scalar behind its mark, in a block whose content starts at `margin`. -/
def blockScalar (folding : Bool) (margin : Nat) (cs : List Cell) :
    Option (List Char × List Cell) := do
  let (header, rest) ← blockHeader? cs
  let lines ← afterLine? rest
  let indent := header.depth.map fun depth => margin - 1 + depth
  let (empties, reached, left) ← emptyLines indent 0 lines
  let indent := indent.getD (max 1 (max margin reached))
  let (text, ending, empties, left) ←
    blockLines folding indent (left.length + 1) false [] empties left
  return match header.chomping with
    | .strip => (text, left)
    | .clip => (text ++ ending, left)
    | .keep => (text ++ ending ++ empties, left)

end TreeLint.Yaml
