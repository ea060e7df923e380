/-
TreeLint/Yaml/Lexer.lean

Splitting a YAML text into tokens.

Two things are not seen where they happen.  A block collection starts where a
token stands further right than the collections around it, and ends where one
stands further left.  And a key is known by the colon behind it: until that
comes, the place where a key may have started is remembered as a candidate,
one for the block context and one for every open flow collection.  A
candidate is given up once the line ends or 1024 bytes have passed; if there
had to be a key, that is an error.
-/
import TreeLint.Yaml.Scalar
import TreeLint.Yaml.Token

namespace TreeLint.Yaml

/-- A place where a key may have started: the cell, whether there has to be a key, and the number
of tokens before it. -/
structure Candidate where
  cell : Cell
  required : Bool
  before : Nat
  deriving DecidableEq, Repr

/-- Whether a key that starts at the candidate cannot end at a cell. -/
def Candidate.isStale (k : Candidate) (c : Cell) : Bool :=
  k.cell.line < c.line || k.cell.offset + 1024 < c.offset

/-- How far a text has been split: what is left of it, the tokens so far with the last one first,
their number, the columns of the open block collections with the innermost first, the candidate
of the innermost flow collection, those of the collections around it, and whether a key may start
here. -/
structure Lexer where
  rest : List Cell
  tokens : List Token
  count : Nat
  columns : List Nat
  candidate : Option Candidate
  outer : List (Option Candidate)
  keyAllowed : Bool
  deriving Repr

namespace Lexer

/-- The state at the start of a text. -/
def start (cs : List Cell) : Lexer := ⟨cs, [], 0, [], none, [], true⟩

/-- Whether a flow collection is open. -/
def inFlow (s : Lexer) : Bool := !s.outer.isEmpty

/-- The least column that belongs to the content of the innermost block collection. -/
def margin (s : Lexer) : Nat :=
  match s.columns with
  | [] => 0
  | column :: _ => column + 1

/-- Adds a token. -/
def push (s : Lexer) (token : Token) : Lexer :=
  { s with tokens := token :: s.tokens, count := s.count + 1 }

/-- Adds a token after the first `before` ones. -/
def insert (s : Lexer) (before : Nat) (token : Token) : Lexer :=
  let later := s.count - before
  { s with
    tokens := s.tokens.take later ++ token :: s.tokens.drop later
    count := s.count + 1 }

/-! ### Block collections -/

/-- Starts a block collection after the first `before` tokens, if its column is to the right of
those around it. -/
def openBlock (s : Lexer) (column before : Nat) (token : Token) : Lexer :=
  if !s.inFlow && s.margin ≤ column then
    { s.insert before token with columns := column :: s.columns }
  else s

/-- Splits off the columns that lie to the right of a given one. -/
def columnsBeyond (column : Nat) : List Nat → Nat × List Nat
  | [] => (0, [])
  | c :: rest =>
    if column < c then let (n, left) := columnsBeyond column rest; (n + 1, left)
    else (0, c :: rest)

/-- Ends a number of block collections. -/
def closeBlocks (s : Lexer) (number : Nat) (columns : List Nat) : Lexer :=
  { s with
    tokens := List.replicate number .blockEnd ++ s.tokens
    count := s.count + number
    columns := columns }

/-- Ends the block collections to the right of a column. -/
def closeBeyond (s : Lexer) (column : Nat) : Lexer :=
  if s.inFlow then s
  else let (number, columns) := columnsBeyond column s.columns; s.closeBlocks number columns

/-- Ends all block collections. -/
def closeAll (s : Lexer) : Lexer :=
  if s.inFlow then s else s.closeBlocks s.columns.length []

/-! ### Keys -/

/-- Gives a candidate up, unless there has to be a key. -/
def giveUp? : Option Candidate → Option (Option Candidate)
  | some k => if k.required then none else some none
  | none => some none

/-- Gives the innermost candidate up. -/
def dropKey (s : Lexer) : Option Lexer :=
  (giveUp? s.candidate).map fun k => { s with candidate := k }

/-- Gives every candidate up for which a cell is too far. -/
def dropStale (s : Lexer) (c : Cell) : Option Lexer := do
  let check (k : Option Candidate) := if k.any (·.isStale c) then giveUp? k else some k
  return { s with candidate := ← check s.candidate, outer := ← s.outer.mapM check }

/-- Remembers that a key may start at a cell, if one is allowed. -/
def markKey (s : Lexer) (c : Cell) : Option Lexer :=
  if s.keyAllowed then
    let required := !s.inFlow && s.columns.head? == some c.column
    (giveUp? s.candidate).map fun _ => { s with candidate := some ⟨c, required, s.count⟩ }
  else some s

/-! ### Single tokens -/

/-- Adds a token that is the whole of what was read, leaving `rest`. -/
def take (s : Lexer) (token : Token) (keyAllowed : Bool) (rest : List Cell) : Lexer :=
  { s.push token with rest := rest, keyAllowed := keyAllowed }

/-- The mark of a document. -/
def takeMark (s : Lexer) (token : Token) (rest : List Cell) : Option Lexer :=
  s.closeAll.dropKey.map (·.take token false rest)

/-- The start of a flow collection. -/
def openFlow (s : Lexer) (token : Token) (c : Cell) (rest : List Cell) : Option Lexer :=
  (s.markKey c).map fun s =>
    { s.take token true rest with candidate := none, outer := s.candidate :: s.outer }

/-- The end of a flow collection. -/
def closeFlow (s : Lexer) (token : Token) (rest : List Cell) : Option Lexer :=
  s.dropKey.map fun s =>
    match s.outer with
    | [] => s.take token false rest
    | candidate :: outer =>
      { s.take token false rest with candidate := candidate, outer := outer }

/-- The dash of an item. -/
def takeItem (s : Lexer) (c : Cell) (rest : List Cell) : Option Lexer :=
  if !s.inFlow && !s.keyAllowed then none
  else (s.openBlock c.column s.count .blockSequence).dropKey.map (·.take .item true rest)

/-- The question mark before a key. -/
def takeKey (s : Lexer) (c : Cell) (rest : List Cell) : Option Lexer :=
  if !s.inFlow && !s.keyAllowed then none
  else
    (s.openBlock c.column s.count .blockMapping).dropKey.map (·.take .key (!s.inFlow) rest)

/-- The colon before a value.  If there is a candidate, the key starts there. -/
def takeValue (s : Lexer) (c : Cell) (rest : List Cell) : Option Lexer :=
  match s.candidate with
  | some k =>
    let s := (s.insert k.before .key).openBlock k.cell.column k.before .blockMapping
    some { s.take .value false rest with candidate := none }
  | none =>
    if !s.inFlow && !s.keyAllowed then none
    else some ((s.openBlock c.column s.count .blockMapping).take .value (!s.inFlow) rest)

/-- A token that may be a key or a part of one. -/
def takeNode (s : Lexer) (c : Cell) (token : Option (Token × List Cell)) : Option Lexer := do
  let s ← s.markKey c
  let (token, rest) ← token
  return s.take token false rest

/-- A quoted scalar. -/
def takeQuoted (s : Lexer) (c : Cell) (reading : Option (List Char × List Cell)) :
    Option Lexer :=
  s.takeNode c (reading.map fun (text, rest) => (.scalar (String.ofList text) .quoted, rest))

/-- A block scalar. -/
def takeBlockScalar (s : Lexer) (style : Style) (rest : List Cell) : Option Lexer := do
  let s ← s.dropKey
  let (text, rest) ← blockScalar (style == .folded) s.margin rest
  return s.take (.scalar (String.ofList text) style) true rest

/-- A plain scalar.  Another key may start on the line below it. -/
def takePlain (s : Lexer) (c : Cell) (rest : List Cell) : Option Lexer := do
  let s ← s.markKey c
  let (text, broken, rest) ← plain s.inFlow s.margin .empty (c :: rest)
  return s.take (.scalar (String.ofList text) .plain) broken rest

/-- The token that starts with a cell. -/
def takeToken (s : Lexer) (c : Cell) (rest : List Cell) : Option Lexer :=
  if c.column == 0 && c.char == '%' then do
    let s ← s.closeAll.dropKey
    let (token, rest) ← Token.directive? rest
    return s.take token false rest
  else if isMark '-' (c :: rest) then s.takeMark .documentStart (rest.drop 2)
  else if isMark '.' (c :: rest) then s.takeMark .documentEnd (rest.drop 2)
  else match c.char with
    | '[' => s.openFlow .flowSequence c rest
    | '\x7b' => s.openFlow .flowMapping c rest
    | ']' => s.closeFlow .flowSequenceEnd rest
    | '\x7d' => s.closeFlow .flowMappingEnd rest
    | ',' => s.dropKey.map (·.take .comma true rest)
    | '*' => s.takeNode c ((Token.anchorName? rest).map fun (name, rest) => (.reference name, rest))
    | '&' => s.takeNode c ((Token.anchorName? rest).map fun (name, rest) => (.anchor name, rest))
    | '!' => s.takeNode c (Token.tag? s.inFlow rest)
    | '\'' => s.takeQuoted c (singleQuoted .empty rest)
    | '"' => s.takeQuoted c (doubleQuoted 0 0 .empty rest)
    | char =>
      if char == '-' && atSpace rest then s.takeItem c rest
      else if char == '?' && (s.inFlow || atSpace rest) then s.takeKey c rest
      else if char == ':' && (s.inFlow || atSpace rest) then s.takeValue c rest
      else if char == '|' && !s.inFlow then s.takeBlockScalar .literal rest
      else if char == '>' && !s.inFlow then s.takeBlockScalar .folded rest
      else if startsPlain s.inFlow char rest then s.takePlain c rest
      else none

/-! ### Whole texts -/

/-- Drops what stands between tokens: blanks, comments, line ends, and a byte order mark at the
start of a line.  Outside flow collections a key may start on a new line; where one may start, tabs
are not blanks. -/
def skipSpace (flow : Bool) : (comment keyAllowed : Bool) → List Cell → Bool × List Cell
  | _, keyAllowed, [] => (keyAllowed, [])
  | comment, keyAllowed, c :: rest =>
    if isBreak c.char then skipSpace flow false (keyAllowed || !flow) rest
    else if comment then skipSpace flow true keyAllowed rest
    else if c.char == '#' then skipSpace flow true keyAllowed rest
    else if c.char == ' ' || (c.char == '\t' && (flow || !keyAllowed))
        || (c.char == '\ufeff' && c.column == 0) then
      skipSpace flow false keyAllowed rest
    else (keyAllowed, c :: rest)

/-- Splits the rest of a text, which takes at most `bound` tokens. -/
def run : (bound : Nat) → Lexer → Option (List Token)
  | 0, _ => none
  | bound + 1, s =>
    let (keyAllowed, rest) := skipSpace s.inFlow false s.keyAllowed s.rest
    match rest with
    | [] => s.closeAll.dropKey.map (·.tokens.reverse)
    | c :: rest => do
      let s ← ({ s with keyAllowed := keyAllowed }).dropStale c
      let s ← (s.closeBeyond c.column).takeToken c rest
      run bound s

end Lexer

/-- The tokens of a text. -/
def tokens? (cs : List Cell) : Option (List Token) :=
  (Lexer.start cs).run (cs.length + 1)

end TreeLint.Yaml
