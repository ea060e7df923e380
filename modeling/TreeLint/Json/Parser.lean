/-
TreeLint/Json/Parser.lean

Reading JSON.  Each reader takes the characters from where it stands and
gives its value together with what is left; nothing is left (`none`) once
the text has stopped being JSON, and then the value ends in `broken`.

The nesting of values is bounded by the length of the text, which is the
depth that `parse` allows.
-/
import TreeLint.Json.Basic
import TreeLint.Text.Literal

namespace TreeLint.Json

/-- What is left of a text, unless it stopped being JSON. -/
abbrev Rest := Option (List Char)

/-- Drops blanks. -/
def skipBlanks : List Char → List Char
  | c :: rest =>
    if c = ' ' ∨ c = '\n' ∨ c = '\t' ∨ c = '\r' then skipBlanks rest else c :: rest
  | [] => []

/-- What follows a given word. -/
def expectWord : List Char → List Char → Rest
  | [], rest => some rest
  | _ :: _, [] => none
  | w :: ws, c :: cs => if c = w then expectWord ws cs else none

/-! ### Numbers -/

/-- Splits off the leading decimal digits. -/
def digitRun (cs : List Char) : List Char × List Char :=
  (cs.takeWhile Char.isDigit, cs.dropWhile Char.isDigit)

/-- The number that decimal digits denote. -/
def natOfDigits (digits : List Char) : Nat :=
  digits.foldl (fun n c => n * 10 + (c.toNat - '0'.toNat)) 0

/-- The digits of the whole part; a leading zero stands alone. -/
def wholePart? (cs : List Char) : Option (List Char × List Char) :=
  match digitRun cs with
  | ([], _) => none
  | (['0'], rest) => some (['0'], rest)
  | ('0' :: _, _) => none
  | (ds, rest) => some (ds, rest)

/-- A fraction, which may be missing but not empty. -/
def fractionPart? : List Char → Option (List Char × List Char)
  | '.' :: cs =>
    match digitRun cs with
    | ([], _) => none
    | (ds, rest) => some ('.' :: ds, rest)
  | cs => some ([], cs)

/-- The digits of an exponent after its mark and sign. -/
def exponentDigits? (mark : List Char) (cs : List Char) : Option (List Char × List Char) :=
  match digitRun cs with
  | ([], _) => none
  | (ds, rest) => some (mark ++ ds, rest)

/-- An exponent, which may be missing but not empty. -/
def exponentPart? : List Char → Option (List Char × List Char)
  | e :: s :: cs =>
    if e = 'e' ∨ e = 'E' then
      if s = '+' ∨ s = '-' then exponentDigits? [e, s] cs else exponentDigits? [e] (s :: cs)
    else some ([], e :: s :: cs)
  | [e] => if e = 'e' ∨ e = 'E' then none else some ([], [e])
  | [] => some ([], [])

/-- A number after its sign. -/
def readNumber (sign : List Char) (cs : List Char) : Json × Rest :=
  match wholePart? cs with
  | none => (broken, none)
  | some (whole, afterWhole) =>
    match fractionPart? afterWhole with
    | none => (broken, none)
    | some (fraction, afterFraction) =>
      match exponentPart? afterFraction with
      | none => (broken, none)
      | some (exponent, rest) =>
        if sign.isEmpty && fraction.isEmpty && exponent.isEmpty then
          (nat (natOfDigits whole), some rest)
        else (number (String.ofList (sign ++ whole ++ fraction ++ exponent)), some rest)

/-! ### Strings -/

/-- The character of a one-character escape. -/
def shortEscape? : Char → Option Char
  | '"' => some '"'
  | '\\' => some '\\'
  | '/' => some '/'
  | 'b' => some '\x08'
  | 'f' => some '\x0c'
  | 'n' => some '\n'
  | 'r' => some '\r'
  | 't' => some '\t'
  | _ => none

/-- The number of four hexadecimal digits. -/
def hexUnit? (a b c d : Char) : Option Nat := do
  let a ← Text.Literal.hexDigit? a
  let b ← Text.Literal.hexDigit? b
  let c ← Text.Literal.hexDigit? c
  let d ← Text.Literal.hexDigit? d
  return ((a * 16 + b) * 16 + c) * 16 + d

/-- The code units of a string up to its closing quote.  Characters stand for themselves, escapes
for their number. -/
def stringUnits : List Char → Option (List Nat × List Char)
  | [] => none
  | '"' :: rest => some ([], rest)
  | '\\' :: 'u' :: a :: b :: c :: d :: rest =>
    match hexUnit? a b c d with
    | none => none
    | some unit => (stringUnits rest).map fun r => (unit :: r.1, r.2)
  | '\\' :: e :: rest =>
    match shortEscape? e with
    | none => none
    | some c => (stringUnits rest).map fun r => (c.toNat :: r.1, r.2)
  | c :: rest =>
    if c = '\\' ∨ c.toNat < 0x20 then none
    else (stringUnits rest).map fun r => (c.toNat :: r.1, r.2)

/-- The text that code units denote: a high surrogate combines with the low one after it, and no
other surrogate denotes anything. -/
def textOfUnits? : List Nat → Option (List Char)
  | [] => some []
  | [u] => (Text.Literal.scalar? u).map ([·])
  | u :: v :: rest =>
    if 0xD800 ≤ u ∧ u < 0xDC00 then
      if 0xDC00 ≤ v ∧ v < 0xE000 then do
        let c ← Text.Literal.scalar? (0x10000 + (u - 0xD800) * 0x400 + (v - 0xDC00))
        return c :: (← textOfUnits? rest)
      else none
    else do
      let c ← Text.Literal.scalar? u
      return c :: (← textOfUnits? (v :: rest))

/-- A string after its opening quote. -/
def readString (cs : List Char) : Json × Rest :=
  match stringUnits cs with
  | none => (broken, none)
  | some (units, rest) =>
    match textOfUnits? units with
    | none => (garbled, some rest)
    | some text => (string (String.ofList text), some rest)

/-- Whether there is an escape before the next quote. -/
def hasEscape : List Char → Bool
  | [] => false
  | c :: rest => c == '\\' || (c != '"' && hasEscape rest)

/-- The key at the start of a field. -/
def readKey (cs : List Char) : Option (Key × List Char) :=
  match skipBlanks cs with
  | '"' :: rest =>
    match stringUnits rest with
    | none => none
    | some (units, left) =>
      match textOfUnits? units with
      | none => some (.garbled, left)
      | some text =>
        if hasEscape rest then some (.escaped (String.ofList text), left)
        else some (.plain (String.ofList text), left)
  | _ => none

/-! ### Values -/

/-- A word that stands for a value. -/
def readWord (word : String) (v : Json) (cs : List Char) : Json × Rest :=
  match expectWord word.toList cs with
  | none => (broken, none)
  | some rest => (v, some rest)

mutual

/-- A value, nested at most `depth` levels. -/
def readValue : (depth : Nat) → List Char → Json × Rest
  | 0, _ => (broken, none)
  | depth + 1, cs =>
    match skipBlanks cs with
    | '"' :: rest => readString rest
    | '[' :: rest =>
      match skipBlanks rest with
      | ']' :: rest => (array [], some rest)
      | rest => let (items, rest) := readItems depth rest; (array items, rest)
    | '\x7b' :: rest =>
      match skipBlanks rest with
      | '\x7d' :: rest => (object [], some rest)
      | rest => let (fields, rest) := readFields depth rest; (object fields, rest)
    | '-' :: rest => readNumber ['-'] rest
    | 't' :: rest => readWord "rue" (bool true) rest
    | 'f' :: rest => readWord "alse" (bool false) rest
    | 'n' :: rest => readWord "ull" null rest
    | rest => readNumber [] rest

/-- The items of a list, at least one. -/
def readItems : (depth : Nat) → List Char → List Json × Rest
  | 0, _ => ([broken], none)
  | depth + 1, cs =>
    match readValue depth cs with
    | (v, none) => ([v], none)
    | (v, some rest) =>
      match skipBlanks rest with
      | ']' :: rest => ([v], some rest)
      | ',' :: rest => let (vs, rest) := readItems depth rest; (v :: vs, rest)
      | _ => ([v, broken], none)

/-- The fields of an object, at least one. -/
def readFields : (depth : Nat) → List Char → List (Key × Json) × Rest
  | 0, _ => ([(.garbled, broken)], none)
  | depth + 1, cs =>
    match readKey cs with
    | none => ([(.garbled, broken)], none)
    | some (key, rest) =>
      match skipBlanks rest with
      | ':' :: rest =>
        match readValue depth rest with
        | (v, none) => ([(key, v)], none)
        | (v, some rest) =>
          match skipBlanks rest with
          | '\x7d' :: rest => ([(key, v)], some rest)
          | ',' :: rest => let (fs, rest) := readFields depth rest; ((key, v) :: fs, rest)
          | _ => ([(key, v), (.garbled, broken)], none)
      | _ => ([(key, broken)], none)

end

/-- The value at the start of a text, and whether only blanks follow it. -/
def parse (text : String) : Json × Bool :=
  let cs := text.toList
  match readValue (2 * cs.length + 2) cs with
  | (v, none) => (v, false)
  | (v, some rest) => (v, (skipBlanks rest).isEmpty)

end TreeLint.Json
