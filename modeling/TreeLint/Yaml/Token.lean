/-
TreeLint/Yaml/Token.lean

The tokens of a YAML text, and the reading of those that carry a name:
anchors, aliases, tags and directives.  A reader starts behind the mark of
the token and gives it with what is left.
-/
import TreeLint.Text.Literal
import TreeLint.Yaml.Basic
import TreeLint.Yaml.Cell

namespace TreeLint.Yaml

/-- The text of a tag.  A place where its bytes spell no character holds none. -/
abbrev TagText := List (Option Char)

/-- A token.  The starts and ends of block collections are tokens of their own, though nothing but
indentation shows them; `key` stands before every key. -/
inductive Token where
  | version (major minor : Nat)
  | shorthand (handle : String) (stem : TagText)
  | documentStart
  | documentEnd
  | blockSequence
  | blockMapping
  | blockEnd
  | flowSequence
  | flowSequenceEnd
  | flowMapping
  | flowMappingEnd
  | item
  | comma
  | key
  | value
  | reference (name : String)
  | anchor (name : String)
  | tag (handle : String) (suffix : TagText)
  | scalar (text : String) (style : Style)
  deriving DecidableEq, Repr

namespace Token

/-- The text of some cells. -/
def textOf (cs : List Cell) : String := String.ofList (cs.map (·.char))

/-- Whether a character may stand in a name. -/
def isNameChar (c : Char) : Bool := c.isAlphanum || c == '_' || c == '-'

/-- Splits off a name, which may be empty. -/
def nameRun (cs : List Cell) : String × List Cell :=
  (textOf (cs.takeWhile (isNameChar ·.char)), cs.dropWhile (isNameChar ·.char))

/-- The name of an anchor or an alias. -/
def anchorName? (cs : List Cell) : Option (String × List Cell) :=
  let (name, rest) := nameRun cs
  if name.isEmpty then none
  else if atSpace rest || nextIn ['?', ':', ',', ']', '\x7d', '%', '@', '\x60'] rest then
    some (name, rest)
  else none

/-! ### Tags -/

/-- Whether a character may stand in a tag; in a verbatim one there are more. -/
def isTagChar (verbatim : Bool) (c : Char) : Bool :=
  isNameChar c
    || [';', '/', '?', ':', '@', '&', '=', '+', '$', '.', '!', '~', '*', '\'', '(', ')'].contains c
    || (verbatim && [',', '[', ']'].contains c)

/-- For the first byte of a character: how many bytes follow, the least number that is written
with so many, and what the byte adds to the number. -/
def leadByte? (byte : Nat) : Option (Nat × Nat × Nat) :=
  if byte < 0x80 then some (0, 0, byte)
  else if 0xC0 ≤ byte ∧ byte < 0xE0 then some (1, 0x80, byte - 0xC0)
  else if 0xE0 ≤ byte ∧ byte < 0xF0 then some (2, 0x800, byte - 0xE0)
  else if 0xF0 ≤ byte ∧ byte < 0xF8 then some (3, 0x10000, byte - 0xF0)
  else none

/-- The character of a number that is written with as many bytes as numbers from `least` on. -/
def spelled? (least code : Nat) : Option Char :=
  if code < least then none else Text.Literal.scalar? code

/-- The text of a tag.  A percent sign and two hexadecimal digits stand for a byte of a character;
inside such a character, `awaited` bytes are still to come, `least` tells how it is written, and
`code` is the number of the bytes before. -/
def tagText (verbatim : Bool) :
    (awaited least code : Nat) → List Cell → Option (TagText × List Cell)
  | 0, _, _, [] => some ([], [])
  | _ + 1, _, _, [] => none
  | awaited, least, code, p :: a :: b :: rest =>
    if p.char == '%' then
      match Text.Literal.hexDigit? a.char, Text.Literal.hexDigit? b.char with
      | some high, some low =>
        let byte := high * 16 + low
        let next := match awaited with
          | 0 => leadByte? byte
          | awaited + 1 =>
            if 0x80 ≤ byte ∧ byte < 0xC0 then some (awaited, least, code * 64 + (byte - 0x80))
            else none
        match next with
        | none => none
        | some (0, least, code) =>
          (tagText verbatim 0 0 0 rest).map fun (text, left) => (spelled? least code :: text, left)
        | some (awaited, least, code) => tagText verbatim awaited least code rest
      | _, _ => none
    else if awaited ≠ 0 then none
    else if isTagChar verbatim p.char then
      (tagText verbatim 0 0 0 (a :: b :: rest)).map fun (text, left) => (some p.char :: text, left)
    else some ([], p :: a :: b :: rest)
  | awaited, _, _, p :: rest =>
    if awaited ≠ 0 || p.char == '%' then none
    else if isTagChar verbatim p.char then
      (tagText verbatim 0 0 0 rest).map fun (text, left) => (some p.char :: text, left)
    else some ([], p :: rest)

/-- What counts of the text of a tag: a NUL ends it. -/
def counted (text : TagText) : TagText := text.takeWhile (· != some '\x00')

/-- The text of a tag, for which something has to be written. -/
def someTagText? (verbatim : Bool) (cs : List Cell) : Option (TagText × List Cell) :=
  match tagText verbatim 0 0 0 cs with
  | some (c :: text, rest) => some (counted (c :: text), rest)
  | _ => none

/-- A tag in angle brackets, which stands for itself. -/
def verbatimTag? (cs : List Cell) : Option (Token × List Cell) :=
  match someTagText? true cs with
  | some (text, c :: rest) => if c.char == '>' then some (tag "" text, rest) else none
  | _ => none

/-- The tag with the handle that needs no name; without a text the mark itself is the tag. -/
def plainTag (text : TagText) : Token :=
  if text.isEmpty then tag "" [some '!'] else tag "!" text

/-- A tag behind its exclamation mark: with a handle of its own, or without. -/
def localTag? (cs : List Cell) : Option (Token × List Cell) :=
  let (name, rest) := nameRun cs
  let start : TagText := name.toList.map some
  match rest with
  | c :: rest' =>
    if c.char == '!' then
      (someTagText? false rest').map fun (text, left) => (tag ("!" ++ name ++ "!") text, left)
    else
      (tagText false 0 0 0 rest).map fun (text, left) => (plainTag (counted (start ++ text)), left)
  | [] => some (plainTag start, [])

/-- A tag behind its exclamation mark; a blank or a line end, in a flow collection also a comma,
follows it. -/
def tag? (flow : Bool) (cs : List Cell) : Option (Token × List Cell) :=
  match if nextIs '<' cs then verbatimTag? (cs.drop 1) else localTag? cs with
  | some (token, rest) =>
    if (flow && nextIs ',' rest) || atSpace rest then some (token, rest) else none
  | none => none

/-! ### Directives -/

/-- A number in a version, of at most nine digits. -/
def versionNumber? (cs : List Cell) : Option (Nat × List Cell) :=
  let digits := cs.takeWhile (·.char.isDigit)
  if digits.isEmpty || 9 < digits.length then none
  else some (digits.foldl (fun n c => n * 10 + (c.char.toNat - '0'.toNat)) 0,
    cs.drop digits.length)

/-- The directive that gives the version, behind its name. -/
def version? (cs : List Cell) : Option (Token × List Cell) := do
  let (major, rest) ← versionNumber? (cs.dropWhile (isBlank ·.char))
  if !nextIs '.' rest then none
  let (minor, rest) ← versionNumber? (rest.drop 1)
  return (version major minor, rest)

/-- The directive that makes a handle for tags, behind its name. -/
def shorthand? (cs : List Cell) : Option (Token × List Cell) := do
  let cs := cs.dropWhile (isBlank ·.char)
  if !nextIs '!' cs then none
  let (name, rest) := nameRun (cs.drop 1)
  let (handle, rest) ←
    if nextIs '!' rest then some ("!" ++ name ++ "!", rest.drop 1)
    else if name.isEmpty then some ("!", rest)
    else none
  if !nextIn [' ', '\t'] rest then none
  let (stem, rest) ← someTagText? true (rest.dropWhile (isBlank ·.char))
  if !atSpace rest then none
  return (shorthand handle stem, rest)

/-- A directive behind its percent sign. -/
def directive? (cs : List Cell) : Option (Token × List Cell) := do
  let (name, rest) := nameRun cs
  if name.isEmpty || !atSpace rest then none
  let (token, rest) ← match name with
    | "YAML" => version? rest
    | "TAG" => shorthand? rest
    | _ => none
  return (token, ← afterLine? rest)

end Token

end TreeLint.Yaml
