/-
TreeLint/Json/Printer.lean

Writing JSON.  A string escapes the quote, the backslash and the control
characters below the space, and nothing else.  `compact` writes no blanks;
`pretty` writes one item or field per line, indented by two blanks per
level, and an empty list or object as `[]` or `{}`.
-/
import TreeLint.Json.Basic

namespace TreeLint.Json

/-- A hexadecimal digit in lower case. -/
def hexChar (n : Nat) : Char :=
  if n < 10 then Char.ofNat ('0'.toNat + n) else Char.ofNat ('a'.toNat + (n - 10))

/-- How a character stands inside a string. -/
def escapeChar (c : Char) : List Char :=
  if c = '"' then ['\\', '"']
  else if c = '\\' then ['\\', '\\']
  else if c = '\x08' then ['\\', 'b']
  else if c = '\x0c' then ['\\', 'f']
  else if c = '\n' then ['\\', 'n']
  else if c = '\r' then ['\\', 'r']
  else if c = '\t' then ['\\', 't']
  else if c.toNat < 0x20 then ['\\', 'u', '0', '0', hexChar (c.toNat / 16), hexChar (c.toNat % 16)]
  else [c]

/-- A string between quotes. -/
def quote (s : String) : String :=
  String.ofList ('"' :: (s.toList.flatMap escapeChar ++ ['"']))

/-- A key between quotes. -/
def quoteKey (k : Key) : String := quote (k.text?.getD "")

mutual

/-- The value on one line without blanks. -/
def compact : Json → String
  | null => "null"
  | bool b => if b then "true" else "false"
  | nat n => toString n
  | number literal => literal
  | string s => quote s
  | garbled => "null"
  | array items => "[" ++ ",".intercalate (compactAll items) ++ "]"
  | object fields => "\x7b" ++ ",".intercalate (compactFields fields) ++ "\x7d"
  | broken => "null"

/-- Each item on one line. -/
def compactAll : List Json → List String
  | [] => []
  | v :: vs => v.compact :: compactAll vs

/-- Each field on one line. -/
def compactFields : List (Key × Json) → List String
  | [] => []
  | (k, v) :: fs => (quoteKey k ++ ":" ++ v.compact) :: compactFields fs

end

/-- The start of a line at a level. -/
def lineStart (level : Nat) : String :=
  "\n" ++ String.ofList (List.replicate (2 * level) ' ')

/-- Items between brackets, one a line. -/
def block (openMark closeMark : String) (level : Nat) : List String → String
  | [] => openMark ++ closeMark
  | items =>
    openMark ++ ",".intercalate (items.map (lineStart (level + 1) ++ ·)) ++ lineStart level
      ++ closeMark

mutual

/-- The value over several lines, its first line starting at `level`. -/
def prettyAt (level : Nat) : Json → String
  | array items => block "[" "]" level (prettyAll (level + 1) items)
  | object fields => block "\x7b" "\x7d" level (prettyFields (level + 1) fields)
  | v => v.compact

/-- Each item over several lines. -/
def prettyAll (level : Nat) : List Json → List String
  | [] => []
  | v :: vs => v.prettyAt level :: prettyAll level vs

/-- Each field over several lines. -/
def prettyFields (level : Nat) : List (Key × Json) → List String
  | [] => []
  | (k, v) :: fs => (quoteKey k ++ ": " ++ v.prettyAt level) :: prettyFields level fs

end

/-- The value over several lines. -/
def pretty (v : Json) : String := v.prettyAt 0

end TreeLint.Json
