/-
TreeLint/Glob/Set.lean

Matching a path against several patterns at once.  Patterns that ask for a
name or for an extension are looked up by the last component of the path.
The link to the parent directory is a component without a name, so such a
pattern does not match a path that ends with the link, though it may do so
alone.  All other patterns match as they do alone.

Patterns that ask for more than a name, an extension, a start or an end are
made into expressions, which must not be nested too deeply.
-/
import TreeLint.Glob.Expression

namespace TreeLint.Glob

/-- The character of a part that stands for one. -/
def Part.literal? : Part → Option Char
  | .literal c => some c
  | _ => none

/-- The text that parts stand for, if they stand for one. -/
def literals? (parts : List Part) : Option (List Char) :=
  parts.mapM Part.literal?

/-- The parts without the leading components. -/
def withoutLeading : List Part → List Part
  | .leading :: parts => parts
  | parts => parts

/-- The parts without any bytes at the start. -/
def withoutAny : List Part → List Part
  | .anyBytes :: parts => parts
  | parts => parts

/-- Whether the parts ask for the name of a file, in any directory. -/
def asksName : List Part → Bool
  | .leading :: parts => !parts.isEmpty && (literals? parts).any (!·.contains '/')
  | _ => false

/-- Whether the parts ask for an extension and nothing else. -/
def asksExtension (parts : List Part) : Bool :=
  match withoutLeading parts with
  | .anyBytes :: .literal '.' :: rest =>
    (literals? rest).any fun cs => !cs.contains '.' && !cs.contains '/'
  | _ => false

/-- Whether the parts ask for the start of a path. -/
def asksStart (parts : List Part) : Bool :=
  match parts.reverse with
  | .anyBytes :: rest => !rest.isEmpty && (literals? rest).isSome
  | .trailing :: rest => (literals? rest).isSome
  | rest => (literals? rest).isSome

/-- Whether the parts ask for the end of a path. -/
def asksEnd (parts : List Part) : Bool :=
  let rest := withoutAny (withoutLeading parts)
  !rest.isEmpty && (literals? rest).isSome

/-- Whether the last parts, given in reverse, are an extension. -/
def endsInExtension : List Part → Bool
  | .literal c :: rest => c == '.' || (c != '/' && endsInExtension rest)
  | _ => false

/-- How a pattern among others is matched: by the name or the extension of the path alone, by
comparing texts, or by its expression, which is tried only on paths with the right extension or
on all. -/
inductive Method where
  | byName
  | byText
  | byExtended
  | byExpression
  deriving DecidableEq, Repr

/-- How the pattern is matched among others. -/
def method (g : Glob) : Method :=
  let parts := g.parts
  if asksName parts then .byName
  else if (literals? parts).isSome then .byText
  else if asksExtension parts then .byName
  else if asksStart parts || asksEnd parts then .byText
  else if endsInExtension parts.reverse then .byExtended
  else .byExpression

/-- Whether the pattern is looked up by the last component of a path. -/
def isByName (g : Glob) : Bool := g.method == .byName || g.method == .byExtended

/-- Whether a path ends with the link to the parent directory. -/
def endsInParent (path : String) : Bool :=
  match path.toList.reverse with
  | '.' :: '.' :: rest => rest.head?.all (· == '/')
  | _ => false

/-- Whether one of several patterns matches a path. -/
def anyMatch (globs : List Glob) (path : String) : Bool :=
  globs.any fun g => !(g.isByName && endsInParent path) && g.isMatch path

/-! ### Patterns that are nested too deeply -/

/-- A pattern that is nested too deeply: by its expression, or by its place among those that are
matched by expression. -/
inductive DepthFault where
  | expression (text : String)
  | place (index : Nat)
  deriving DecidableEq, Repr

/-- The message shown for the fault. -/
def DepthFault.message : DepthFault → String
  | expression text => "error parsing glob '" ++ text ++ "': error parsing pattern 0"
  | place index => "error parsing pattern " ++ toString index

/-- The first of several patterns that is nested too deeply. -/
def depthFault? (globs : List Glob) : Option DepthFault :=
  match globs.find? fun g => g.method == .byExtended && g.isTooDeep with
  | some g => some (.expression g.expression)
  | none => ((globs.filter (·.method == .byExpression)).findIdx? isTooDeep).map .place

end TreeLint.Glob
