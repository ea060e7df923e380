/-
TreeLint/Glob/Expression.lean

Patterns as regular expressions over bytes.  The expression of a pattern
appears in messages, and how deeply it is nested decides whether the pattern
can be matched at all: groups, choices, repetitions, sequences of two or more
items and classes each count as one level, and there may be 250.
-/
import TreeLint.Glob

namespace TreeLint.Glob

/-! ### Text -/

/-- The characters that mean something else in an expression. -/
def metaCharacters : List Char :=
  ['\\', '.', '+', '*', '?', '(', ')', '|', '[', ']', '\x7b', '\x7d', '^', '$', '#', '&', '-', '~']

/-- A byte in an expression. -/
def byteExpression (b : UInt8) : List Char :=
  if b < 0x80 then
    let c := Char.ofNat b.toNat
    if metaCharacters.contains c then ['\\', c] else [c]
  else '\\' :: 'x' :: Nat.toDigits 16 b.toNat

/-- A character in an expression: each of its bytes. -/
def charExpression (c : Char) : List Char := (charBytes c).flatMap byteExpression

/-- A range of a class in an expression. -/
def rangeExpression : Char × Char → List Char
  | (lo, hi) => if lo = hi then charExpression lo else charExpression lo ++ '-' :: charExpression hi

mutual

/-- The expression of a part. -/
def Part.expression : Part → List Char
  | .literal c => charExpression c
  | .anyByte => ['.']
  | .anyBytes => ['.', '*']
  | .leading => "(?:/?|.*/)".toList
  | .trailing => "/.*".toList
  | .between => "(?:/|/.*/)".toList
  | .oneOf negated ranges =>
    '[' :: (if negated then ['^'] else []) ++ ranges.flatMap rangeExpression ++ [']']
  | .alternates branches =>
    match branchExpressions branches with
    | [] => []
    | es => "(?:".toList ++ ['|'].intercalate es ++ [')']

/-- The expression of parts in sequence. -/
def sequenceExpression : List Part → List Char
  | [] => []
  | p :: ps => p.expression ++ sequenceExpression ps

/-- The expressions of branches, without those that stand for nothing. -/
def branchExpressions : List (List Part) → List (List Char)
  | [] => []
  | b :: bs =>
    match sequenceExpression b with
    | [] => branchExpressions bs
    | e => e :: branchExpressions bs

end

/-- The expression of a pattern. -/
def expression (g : Glob) : String :=
  let body := match g.parts with
    | [.leading] => ['.', '*']
    | parts => sequenceExpression parts
  "(?-u)^" ++ String.ofList body ++ "$"

/-! ### Depth -/

/-- How many items an expression has side by side, and how deeply the deepest of them is
nested. -/
structure Extent where
  items : Nat
  depth : Nat
  deriving DecidableEq, Repr

namespace Extent

/-- Nothing at all. -/
def none : Extent := ⟨0, 0⟩

/-- One item of the given depth. -/
def one (depth : Nat) : Extent := ⟨1, depth⟩

/-- Two expressions side by side. -/
def append (a b : Extent) : Extent := ⟨a.items + b.items, max a.depth b.depth⟩

/-- The depth of the whole; several items are a level of their own. -/
def whole (e : Extent) : Nat := if 2 ≤ e.items then e.depth + 1 else e.depth

end Extent

mutual

/-- The extent of a part. -/
def Part.extent : Part → Extent
  | .literal c => ⟨(charBytes c).length, 0⟩
  | .anyByte => .one 0
  | .anyBytes => .one 1
  | .leading => .one 4
  | .trailing => ⟨2, 1⟩
  | .between => .one 4
  | .oneOf _ ranges =>
    .one (Extent.whole ⟨(ranges.flatMap fun r => byteRanges r.1 r.2).length, 0⟩ + 1)
  | .alternates branches =>
    if branchesAreVoid branches then .none else .one ((branchesExtent branches).whole + 1)

/-- The extent of parts in sequence. -/
def sequenceExtent : List Part → Extent
  | [] => .none
  | p :: ps => p.extent.append (sequenceExtent ps)

/-- The extent of a choice between branches, each an item, without those that stand for
nothing. -/
def branchesExtent : List (List Part) → Extent
  | [] => .none
  | b :: bs =>
    if partsAreVoid b then branchesExtent bs
    else (Extent.one (sequenceExtent b).whole).append (branchesExtent bs)

end

/-- How deeply the expression of a pattern is nested.  Its ends are items too, so it is always a
sequence. -/
def depth (g : Glob) : Nat :=
  match g.parts with
  | [.leading] => 2
  | parts => (sequenceExtent parts).depth + 1

/-- The greatest depth. -/
def maxDepth : Nat := 250

/-- Whether a pattern is nested too deeply to be matched. -/
def isTooDeep (g : Glob) : Bool := maxDepth < g.depth

end TreeLint.Glob
