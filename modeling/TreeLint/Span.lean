/-
TreeLint/Span.lean

Half-open byte ranges into rendered source text.  A span need not be
ordered: `start` may exceed `stop`, and such a span counts as empty.
-/

namespace TreeLint

/-- The bytes from `start` up to, but not including, `stop`. -/
structure Span where
  start : Nat
  stop : Nat
  deriving DecidableEq, Repr, Inhabited

namespace Span

/-- The number of bytes covered. -/
def length (s : Span) : Nat :=
  s.stop - s.start

/-- Whether no byte is covered. -/
def isEmpty (s : Span) : Bool :=
  s.length == 0

/-- Whether `other` lies entirely inside `s`. -/
def contains (s other : Span) : Bool :=
  s.start ≤ other.start && other.stop ≤ s.stop

/-- Whether the two spans have a byte in common. -/
def overlaps (s other : Span) : Bool :=
  s.start < other.stop && other.start < s.stop

/-- The written form, such as `3..7`. -/
def render (s : Span) : String :=
  toString s.start ++ ".." ++ toString s.stop

end Span

end TreeLint
