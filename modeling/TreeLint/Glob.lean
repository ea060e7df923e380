/-
TreeLint/Glob.lean

Patterns for paths.  A pattern is matched against the bytes of a whole path:

* `?` matches any byte, `*` any bytes, separators included;
* `**` as a whole component matches any number of components;
* `[a-z]` matches a byte of the class, `[!a-z]` or `[^a-z]` any other byte;
* `{a,b}` matches either alternative, and alternatives nest;
* a backslash takes the next character literally.

`Glob.parse` reads a pattern or says what is wrong with it.  Matching keeps
the set of all remainders that a part of the pattern can leave of the path,
so it is polynomial in the length of both.
-/

namespace TreeLint

/-- What is wrong with a pattern. -/
inductive GlobFault where
  | unclosedClass
  | invalidRange (first last : Char)
  | unopenedAlternates
  | unclosedAlternates
  | danglingEscape
  deriving DecidableEq, Repr

/-- The message shown for a fault. -/
def GlobFault.message : GlobFault → String
  | unclosedClass => "unclosed character class; missing ']'"
  | invalidRange a b => "invalid range; '" ++ a.toString ++ "' > '" ++ b.toString ++ "'"
  | unopenedAlternates =>
    "unopened alternate group; missing '\x7b' (maybe escape '\x7d' with '[\x7d]'?)"
  | unclosedAlternates =>
    "unclosed alternate group; missing '\x7d' (maybe escape '\x7b' with '[\x7b]'?)"
  | danglingEscape => "dangling '\\'"

namespace Glob

/-- One part of a pattern. -/
inductive Part where
  | literal (c : Char)
  | anyByte
  | anyBytes
  /-- Leading components, as in `**/a`. -/
  | leading
  /-- Trailing components, as in `a/**`. -/
  | trailing
  /-- Components between two others, as in `a/**/b`. -/
  | between
  | oneOf (negated : Bool) (ranges : List (Char × Char))
  | alternates (branches : List (List Part))
  deriving Repr, Inhabited

end Glob

/-- A pattern that has been read. -/
structure Glob where
  parts : List Glob.Part
  deriving Repr, Inhabited

namespace Glob

/-! ### Reading -/

/-- A pattern being read: the characters left, the one read last and the one before it, the
branches being filled (innermost first, each with its parts in reverse), and for each open group
the number of branches below it. -/
structure Cursor where
  rest : List Char
  current : Option Char := none
  previous : Option Char := none
  branches : List (List Part) := [[]]
  groups : List Nat := []

namespace Cursor

/-- Reads one character. -/
def bump (c : Cursor) : Cursor :=
  { c with rest := c.rest.tail, current := c.rest.head?, previous := c.current }

/-- Adds a part to the innermost branch. -/
def push (c : Cursor) (p : Part) : Cursor :=
  match c.branches with
  | [] => { c with branches := [[p]] }
  | b :: bs => { c with branches := (p :: b) :: bs }

/-- Whether the innermost branch has parts. -/
def hasParts (c : Cursor) : Bool :=
  c.branches.head?.any (!·.isEmpty)

/-- Reads what follows a star, which is the current character. -/
def star (c : Cursor) : Cursor :=
  let before := c.previous
  if c.rest.head? ≠ some '*' then c.push .anyBytes
  else
    let c := c.bump
    let plain := (c.push .anyBytes).push .anyBytes
    let next := c.rest.head?
    if !c.hasParts then
      if next = none ∨ next = some '/' then (c.push .leading).bump else plain
    else
      let inGroup := 2 ≤ c.branches.length
      let startsComponent := before = some '/'
        ∨ (inGroup ∧ (before = some ',' ∨ before = some '\x7b'))
      let ends := next = none ∨ (inGroup ∧ (next = some ',' ∨ next = some '\x7d'))
      if startsComponent ∧ (ends ∨ next = some '/') then
        let c := if ends ∧ next ≠ none then c else c.bump
        match c.branches with
        | (p :: b) :: bs =>
          let merged := match p with
            | .leading => .leading
            | .trailing => .trailing
            | _ => if ends then .trailing else .between
          { c with branches := (merged :: b) :: bs }
        | _ => c
      else plain

/-- A class being read: its ranges in reverse, whether nothing has been read yet, and whether a
range has been begun. -/
structure ClassState where
  ranges : List (Char × Char) := []
  first : Bool := true
  inRange : Bool := false

/-- Completes the range begun last. -/
def completeRange (s : ClassState) (c : Char) : Except GlobFault ClassState :=
  match s.ranges with
  | (lo, _) :: rs =>
    if c < lo then .error (.invalidRange lo c)
    else .ok { ranges := (lo, c) :: rs, first := false, inRange := false }
  | [] => .ok { ranges := [(c, c)], first := false, inRange := false }

/-- Reads the characters of a class up to its closing bracket. -/
def readClass : ClassState → List Char → Except GlobFault (List (Char × Char) × List Char)
  | _, [] => .error .unclosedClass
  | s, c :: rest =>
    if c = ']' ∧ !s.first then
      .ok ((if s.inRange then ('-', '-') :: s.ranges else s.ranges).reverse, rest)
    else if c = '-' ∧ !s.first ∧ !s.inRange then readClass { s with inRange := true } rest
    else if s.inRange then
      match completeRange s c with
      | .error e => .error e
      | .ok s => readClass s rest
    else readClass { ranges := (c, c) :: s.ranges, first := false, inRange := false } rest

/-- Reads a class after its opening bracket. -/
def openClass (c : Cursor) : Except GlobFault Cursor :=
  let negated := c.rest.head? = some '!' ∨ c.rest.head? = some '^'
  match readClass {} (if negated then c.rest.tail else c.rest) with
  | .error e => .error e
  | .ok (ranges, rest) =>
    .ok { c.push (.oneOf negated ranges) with rest := rest, current := some ']', previous := none }

/-- Closes a group of alternatives. -/
def closeGroup (c : Cursor) : Except GlobFault Cursor :=
  match c.groups with
  | [] => .error .unopenedAlternates
  | below :: groups =>
    let count := c.branches.length - below
    let branches := (c.branches.take count).map List.reverse
    .ok ({ c with branches := c.branches.drop count, groups := groups }.push
      (.alternates branches.reverse))

/-- Reads one part, whose first character is the current one. -/
def part (c : Cursor) (ch : Char) : Except GlobFault Cursor :=
  match ch with
  | '?' => .ok (c.push .anyByte)
  | '*' => .ok c.star
  | '[' => c.openClass
  | '\x7b' =>
    .ok { c with branches := [] :: c.branches, groups := c.branches.length :: c.groups }
  | '\x7d' => c.closeGroup
  | ',' =>
    if c.groups.isEmpty then .ok (c.push (.literal ','))
    else .ok { c with branches := [] :: c.branches }
  | '\\' =>
    match c.rest with
    | [] => .error .danglingEscape
    | e :: _ => .ok (c.bump.push (.literal e))
  | ch => .ok (c.push (.literal ch))

/-- Reads parts until nothing is left; every step reads a character, so `steps` need not exceed
the length of the pattern. -/
def readAll : (steps : Nat) → Cursor → Except GlobFault Cursor
  | 0, c => .ok c
  | steps + 1, c =>
    match c.rest with
    | [] => .ok c
    | ch :: _ =>
      match c.bump.part ch with
      | .error e => .error e
      | .ok c => readAll steps c

end Cursor

/-- Reads a pattern. -/
def parse (pattern : String) : Except GlobFault Glob :=
  let cs := pattern.toList
  match Cursor.readAll cs.length { rest := cs } with
  | .error e => .error e
  | .ok c =>
    match c.branches with
    | [parts] => .ok ⟨parts.reverse⟩
    | _ => .error .unclosedAlternates

/-! ### Matching -/

/-- The bytes of a path. -/
abbrev Bytes := List UInt8

/-- The bytes of a character. -/
def charBytes (c : Char) : Bytes :=
  (String.ofList [c]).toUTF8.toList

/-- Byte ranges of a class: a character of several bytes stands for each of its bytes, and a
range runs from the last byte of its first character to the first byte of its last. -/
def byteRanges (lo hi : Char) : List (UInt8 × UInt8) :=
  let single (b : UInt8) := (b, b)
  if lo = hi then (charBytes lo).map single
  else
    match (charBytes lo).reverse, charBytes hi with
    | l :: ls, h :: hs => ls.map single ++ (l, h) :: hs.map single
    | _, _ => []

/-- Whether a class has a byte. -/
def inClass (negated : Bool) (ranges : List (Char × Char)) (b : UInt8) : Bool :=
  (ranges.any fun (lo, hi) => (byteRanges lo hi).any fun (l, h) => l ≤ b && b ≤ h) != negated

/-- All ends of a list, the whole list first. -/
def tails : Bytes → List Bytes
  | [] => [[]]
  | b :: bs => (b :: bs) :: tails bs

/-- The remainders after each separator. -/
def afterSeparators : Bytes → List Bytes
  | [] => []
  | b :: bs => if b = 47 then bs :: afterSeparators bs else afterSeparators bs

/-- What is left after the given bytes. -/
def strip? : Bytes → Bytes → Option Bytes
  | [], s => some s
  | _ :: _, [] => none
  | p :: ps, b :: bs => if p = b then strip? ps bs else none

/-- One of each length; remainders of one path are equal when their lengths are. -/
def distinct (rests : List Bytes) : List Bytes :=
  ((rests.map fun r => (r.length, r)).eraseDupsBy fun a b => a.1 == b.1).map (·.2)

mutual

/-- Whether a part stands for nothing at all. -/
def Part.isVoid : Part → Bool
  | .alternates branches => branchesAreVoid branches
  | _ => false

/-- Whether all parts stand for nothing at all. -/
def partsAreVoid : List Part → Bool
  | [] => true
  | p :: ps => p.isVoid && partsAreVoid ps

/-- Whether all branches stand for nothing at all. -/
def branchesAreVoid : List (List Part) → Bool
  | [] => true
  | b :: bs => partsAreVoid b && branchesAreVoid bs

end

mutual

/-- What a part can leave of a path. -/
def Part.rests : Part → Bytes → List Bytes
  | .literal c, s => (strip? (charBytes c) s).toList
  | .anyByte, s => match s with
    | [] => []
    | _ :: bs => [bs]
  | .anyBytes, s => tails s
  | .leading, s => s :: afterSeparators s
  | .trailing, s => match s with
    | b :: bs => if b = 47 then tails bs else []
    | [] => []
  | .between, s => match s with
    | b :: bs => if b = 47 then bs :: afterSeparators bs else []
    | [] => []
  | .oneOf negated ranges, s => match s with
    | b :: bs => if inClass negated ranges b then [bs] else []
    | [] => []
  | .alternates branches, s =>
    if branchesAreVoid branches then [s] else branchRests branches s

/-- What parts in sequence can leave of several remainders. -/
def sequenceRests : List Part → List Bytes → List Bytes
  | [], rests => rests
  | p :: ps, rests => sequenceRests ps (distinct (rests.flatMap p.rests))

/-- What the branches that stand for something can leave of a path. -/
def branchRests : List (List Part) → Bytes → List Bytes
  | [], _ => []
  | b :: bs, s => (if partsAreVoid b then [] else sequenceRests b [s]) ++ branchRests bs s

end

/-- Whether the pattern matches a path. -/
def isMatch (g : Glob) (path : String) : Bool :=
  match g.parts with
  | [.leading] => true
  | parts => (sequenceRests parts [path.toUTF8.toList]).any List.isEmpty

end Glob

end TreeLint
