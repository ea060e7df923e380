/-
TreeLint/Yaml/Cell.lean

The characters of a YAML text, each with its place.  Indentation and the
extent of keys are matters of place, so places are settled first, and every
later reader only looks at them.

A line feed, a carriage return, both together and the next-line character
are one line feed.  The line and the paragraph separator also end a line, but
stay what they are.
-/

namespace TreeLint.Yaml

/-- A character and where it stands: its line and its column, counted in characters, and its
offset, counted in bytes. -/
structure Cell where
  char : Char
  line : Nat
  column : Nat
  offset : Nat
  deriving DecidableEq, Repr, Inhabited

/-- Whether a character may stand in a text at all. -/
def isReadable (c : Char) : Bool :=
  let n := c.toNat
  n == 0x09 || n == 0x0A || n == 0x0D || (0x20 ≤ n && n ≤ 0x7E) || n == 0x85
    || (0xA0 ≤ n && n ≤ 0xFFFD) || 0x10000 ≤ n

/-- Whether a character ends a line, once line ends are settled. -/
def isBreak (c : Char) : Bool := c == '\n' || c == '\u2028' || c == '\u2029'

/-- Whether a character is a blank. -/
def isBlank (c : Char) : Bool := c == ' ' || c == '\t'

/-- Whether a character is a blank or ends a line. -/
def isSpace (c : Char) : Bool := isBlank c || isBreak c

/-- Gives each character its place, the first one standing at the given place. -/
def locate (line column offset : Nat) : List Char → List Cell
  | [] => []
  | '\r' :: '\n' :: rest => ⟨'\n', line, column, offset⟩ :: locate (line + 1) 0 (offset + 2) rest
  | c :: rest =>
    let ending := if c == '\r' || c == '\u0085' then '\n' else c
    ⟨ending, line, column, offset⟩ ::
      if isBreak ending then locate (line + 1) 0 (offset + c.utf8Size) rest
      else locate line (column + 1) (offset + c.utf8Size) rest

/-- The characters of a text with their places, unless one of them may not stand in it. -/
def cells? (text : String) : Option (List Cell) :=
  if text.toList.all isReadable then some (locate 0 0 0 text.toList) else none

/-! ### Looking ahead -/

/-- Whether the text or a word ends here. -/
def atSpace : List Cell → Bool
  | [] => true
  | c :: _ => isSpace c.char

/-- Whether a given character stands here. -/
def nextIs (c : Char) : List Cell → Bool
  | [] => false
  | d :: _ => d.char == c

/-- Whether one of some characters stands here. -/
def nextIn (set : List Char) : List Cell → Bool
  | [] => false
  | c :: _ => set.contains c.char

/-- Whether a document mark, three times the same character, stands at the start of a line
here. -/
def isMark (mark : Char) : List Cell → Bool
  | a :: b :: c :: rest =>
    a.column == 0 && a.char == mark && b.char == mark && c.char == mark && atSpace rest
  | _ => false

/-- Whether the start or the end of a document is marked here. -/
def atMark (cs : List Cell) : Bool := isMark '-' cs || isMark '.' cs

/-- What follows the line on which only blanks and a comment may be left. -/
def afterLine? (cs : List Cell) : Option (List Cell) :=
  let rest := cs.dropWhile (isBlank ·.char)
  let rest := if nextIs '#' rest then rest.dropWhile (!isBreak ·.char) else rest
  match rest with
  | [] => some []
  | c :: rest => if isBreak c.char then some rest else none

end TreeLint.Yaml
