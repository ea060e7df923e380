/-
TreeLint/Yaml/Basic.lean

YAML documents: scalars, sequences and mappings.  A scalar keeps its text,
the style in which it was written and its tag, because only a plain scalar
can stand for a number, a truth value or nothing.

A node can be anchored, and an alias stands for an anchored node in another
place of the document.  The node is looked up only when the alias is read, so
that a document may be much larger than its text, and an alias may even stand
inside the node that it stands for.
-/

namespace TreeLint.Yaml

/-- How a scalar is written. -/
inductive Style where
  | plain | quoted | literal | folded
  deriving DecidableEq, Repr, Inhabited

/-- The tag of a type that every YAML text knows. -/
def coreTag (name : String) : String := "tag:yaml.org,2002:" ++ name

/-- A node of a document.  An alias gives the number of the node that it stands for. -/
inductive Node where
  | scalar (text : String) (style : Style) (tag : Option String)
  | sequence (items : List Node)
  | mapping (entries : List (Node × Node))
  | reference (number : Nat)
  deriving Repr, Inhabited

namespace Node

/-- What stands where nothing is written. -/
def void : Node := scalar "" .plain none

/-- Whether nothing is written. -/
def isVoid : Node → Bool
  | scalar text style _ => style == .plain && text.isEmpty
  | _ => false

mutual

/-- The number of scalars and aliases in a node, and of starts and ends of collections. -/
def size : Node → Nat
  | scalar _ _ _ | reference _ => 1
  | sequence items => itemsSize items + 2
  | mapping entries => entriesSize entries + 2

/-- The size of several nodes. -/
def itemsSize : List Node → Nat
  | [] => 0
  | v :: vs => v.size + itemsSize vs

/-- The size of several entries. -/
def entriesSize : List (Node × Node) → Nat
  | [] => 0
  | (k, v) :: es => k.size + v.size + entriesSize es

end

/-- The text of a scalar that can stand for something else: a plain one, or a literal block that
is tagged with the type. -/
def typedText? (type : String) : Node → Option String
  | scalar text .plain _ => some text
  | scalar text .literal tag => if tag = some (coreTag type) then some text else none
  | _ => none

/-- A truth value. -/
def flag? (v : Node) : Option Bool :=
  match v.typedText? "bool" with
  | some "true" | some "True" | some "TRUE" => some true
  | some "false" | some "False" | some "FALSE" => some false
  | _ => none

/-- The value of a digit in a base. -/
def digit? (base : Nat) (c : Char) : Option Nat :=
  let n :=
    if '0' ≤ c ∧ c ≤ '9' then c.toNat - '0'.toNat
    else if 'a' ≤ c ∧ c ≤ 'f' then c.toNat - 'a'.toNat + 10
    else if 'A' ≤ c ∧ c ≤ 'F' then c.toNat - 'A'.toNat + 10
    else base
  if n < base then some n else none

/-- The number that digits of a base denote, at least one and within 64 bits. -/
def digits? (base : Nat) : List Char → Option Nat
  | [] => none
  | cs => do
    let ds ← cs.mapM (digit? base)
    let n := ds.foldl (fun n d => n * base + d) 0
    if n < Nat.pow 2 64 then some n else none

/-- Whether decimal digits are padded with zeros, which makes them a text. -/
def isPadded : List Char → Bool
  | '0' :: c :: cs => (c :: cs).all Char.isDigit
  | _ => false

/-- The number that an unsigned scalar denotes. -/
def unsigned? : List Char → Option Nat
  | '0' :: 'x' :: cs => digits? 16 cs
  | '0' :: 'o' :: cs => digits? 8 cs
  | '0' :: 'b' :: cs => digits? 2 cs
  | cs => if isPadded cs then none else digits? 10 cs

/-- A natural number of at most 64 binary digits; a plus sign may stand before it. -/
def count? (v : Node) : Option Nat :=
  match (v.typedText? "int").map String.toList with
  | some ('+' :: cs) => unsigned? cs
  | some cs => unsigned? cs
  | none => none

/-- The text of any scalar. -/
def text? : Node → Option String
  | scalar text _ _ => some text
  | _ => none

/-- Whether a plain text stands for nothing. -/
def isNull (text : String) : Bool :=
  ["", "~", "null", "Null", "NULL"].contains text

/-- The name of one of several choices: the text of a scalar or, where there is a tag with an
exclamation mark, the tag of a scalar that stands for nothing. -/
def choice? : Node → Option String
  | scalar text style tag =>
    match tag.map String.toList with
    | some ('!' :: name) =>
      if style == .plain && isNull text then some (String.ofList name) else none
    | _ => some text
  | _ => none

/-- The items of a sequence; nothing counts as a sequence without items. -/
def items? : Node → Option (List Node)
  | sequence items => some items
  | v => if v.isVoid then some [] else none

/-- The entries of a mapping; nothing counts as a mapping without entries. -/
def entries? : Node → Option (List (Node × Node))
  | mapping entries => some entries
  | v => if v.isVoid then some [] else none

end Node

end TreeLint.Yaml

namespace TreeLint

/-- A node in its document: aliases in it stand for the anchored nodes. -/
structure Yaml where
  value : Yaml.Node
  anchored : List (Nat × Yaml.Node)
  deriving Repr, Inhabited

namespace Yaml

/-- Another node of the same document. -/
def part (v : Yaml) (node : Node) : Yaml := { v with value := node }

/-- How many aliases may be looked up in reading a document: a hundred for each of its parts. -/
def lookups (v : Yaml) : Nat := 100 * v.value.size

end Yaml

end TreeLint
