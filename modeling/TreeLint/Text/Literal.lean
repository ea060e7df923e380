/-
TreeLint/Text/Literal.lean

String literals of the analysed language, between their written text and
the value they denote.

A *regular* literal is written between quotes, with backslash escapes:
one-character escapes, `\u` with four hexadecimal digits, `\U` with eight,
and `\x` with one to four, read greedily.  A *verbatim* literal is written
between `@"` and `"`, with inner quotes doubled.  `encode` writes the regular
form, escaping only quotes, backslashes and line feeds; `decode?` reads both.
-/

namespace TreeLint.Text.Literal

/-! ### Writing -/

/-- The written form of one character of a regular literal. -/
def escape : Char → List Char
  | '"' => ['\\', '"']
  | '\\' => ['\\', '\\']
  | '\n' => ['\\', 'n']
  | c => [c]

/-- The regular literal that denotes `value`. -/
def encode (value : String) : String :=
  String.ofList ('"' :: (value.toList.flatMap escape ++ ['"']))

/-! ### Reading -/

/-- The value of a hexadecimal digit. -/
def hexDigit? (c : Char) : Option Nat :=
  if '0' ≤ c ∧ c ≤ '9' then some (c.toNat - '0'.toNat)
  else if 'a' ≤ c ∧ c ≤ 'f' then some (c.toNat - 'a'.toNat + 10)
  else if 'A' ≤ c ∧ c ≤ 'F' then some (c.toNat - 'A'.toNat + 10)
  else none

/-- Splits off the longest run of at most `limit` hexadecimal digits. -/
def hexRun : (limit : Nat) → List Char → List Nat × List Char
  | 0, cs => ([], cs)
  | _ + 1, [] => ([], [])
  | limit + 1, c :: rest =>
    match hexDigit? c with
    | none => ([], c :: rest)
    | some d => let (ds, rest') := hexRun limit rest; (d :: ds, rest')

/-- Splitting off digits never lengthens the text. -/
theorem length_hexRun_le (limit : Nat) (cs : List Char) :
    (hexRun limit cs).2.length ≤ cs.length := by
  induction limit generalizing cs with
  | zero => simp [hexRun]
  | succ limit ih =>
    cases cs with
    | nil => simp [hexRun]
    | cons c rest =>
      simp only [hexRun]
      split
      · simp
      · exact Nat.le_succ_of_le (ih rest)

/-- The character of a code point, unless it is a surrogate or out of range. -/
def scalar? (code : Nat) : Option Char :=
  if h : code.isValidChar then some (Char.ofNatAux code h) else none

/-- The character denoted by a run of digits, given how many are needed. -/
def codePoint? (least : Nat) (digits : List Nat) : Option Char :=
  if digits.length < least then none
  else scalar? (digits.foldl (fun code d => code * 16 + d) 0)

/-- The character denoted by a one-character escape. -/
def simpleEscape? : Char → Option Char
  | 'n' => some '\n'
  | 't' => some '\t'
  | 'r' => some '\r'
  | '0' => some '\x00'
  | 'a' => some '\x07'
  | 'b' => some '\x08'
  | 'f' => some '\x0c'
  | 'v' => some '\x0b'
  | '\'' => some '\''
  | '"' => some '"'
  | '\\' => some '\\'
  | _ => none

/-- The least and greatest number of digits of a hexadecimal escape. -/
def hexBounds? : Char → Option (Nat × Nat)
  | 'u' => some (4, 4)
  | 'U' => some (8, 8)
  | 'x' => some (1, 4)
  | _ => none

/-- The value of the body of a regular literal. -/
def decodeBody? : List Char → Option (List Char)
  | [] => some []
  | '\\' :: [] => none
  | '\\' :: e :: rest =>
    match hexBounds? e with
    | some (least, most) =>
      match codePoint? least (hexRun most rest).1 with
      | none => none
      | some c => (decodeBody? (hexRun most rest).2).map (c :: ·)
    | none =>
      match simpleEscape? e with
      | none => none
      | some c => (decodeBody? rest).map (c :: ·)
  | c :: rest => (decodeBody? rest).map (c :: ·)
termination_by cs => cs.length
decreasing_by
  · have := length_hexRun_le most rest
    simp only [List.length_cons]; omega
  · simp only [List.length_cons]; omega
  · simp only [List.length_cons]; omega

/-- Reads each doubled quote as one. -/
def undouble : List Char → List Char
  | '"' :: '"' :: rest => '"' :: undouble rest
  | c :: rest => c :: undouble rest
  | [] => []

/-- What stands before a closing quote. -/
def beforeQuote? (cs : List Char) : Option (List Char) :=
  if cs.getLast? = some '"' then some cs.dropLast else none

/-- The value denoted by a literal's text; none when the text is not a literal. -/
def decode? (text : String) : Option String :=
  match text.toList with
  | '@' :: '"' :: rest => (beforeQuote? rest).map fun body => String.ofList (undouble body)
  | '"' :: rest => ((beforeQuote? rest).bind decodeBody?).map String.ofList
  | _ => none

end TreeLint.Text.Literal
