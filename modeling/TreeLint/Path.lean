/-
TreeLint/Path.lean

Paths of files.  A path is shown as it is written, but it is compared by its
components: repeated and trailing separators and inner `.` do not count, a
leading `.` does, and `..` is not resolved.

Components are ordered root, `.`, `..`, names, and names by code point, so
`a/b.cs` comes before `a.cs`.
-/
import TreeLint.Text.Lines

namespace TreeLint

/-- One part of a path. -/
inductive Component where
  | root
  | here
  | up
  | name (text : String)
  deriving DecidableEq, Repr, Inhabited

namespace Component

/-- The place of the component's sort in the order. -/
def rank : Component → Nat
  | root => 0
  | here => 1
  | up => 2
  | name _ => 3

/-- The order of components. -/
def compare (a b : Component) : Ordering :=
  match a, b with
  | name x, name y => if x = y then .eq else if x < y then .lt else .gt
  | a, b => Ord.compare a.rank b.rank

end Component

/-- A path as it is written. -/
structure Path where
  text : String
  deriving DecidableEq, Repr, Inhabited

namespace Path

/-- The component that a piece between separators stands for. -/
def component? (piece : List Char) : Option Component :=
  match piece with
  | [] => none
  | ['.'] => none
  | ['.', '.'] => some .up
  | cs => some (.name (String.ofList cs))

/-- The components of a path. -/
def components (p : Path) : List Component :=
  match Text.splitAt '/' p.text.toList with
  | [] :: pieces@(_ :: _) => .root :: pieces.filterMap component?
  | ['.'] :: pieces => .here :: pieces.filterMap component?
  | pieces => pieces.filterMap component?

/-- The steps on the way to a path.  Unlike its components they keep every `.`, because one can
only be taken in a directory. -/
def steps (p : Path) : List Component :=
  let pieces := Text.splitAt '/' p.text.toList
  let step? (piece : List Char) := if piece = ['.'] then some .here else component? piece
  match pieces with
  | [] :: _ :: _ => .root :: pieces.filterMap step?
  | _ => pieces.filterMap step?

/-- Whether two paths have the same components. -/
def same (p q : Path) : Bool :=
  p.components == q.components

/-- The lexicographic order of lists of components. -/
def compareComponents : List Component → List Component → Ordering
  | [], [] => .eq
  | [], _ :: _ => .lt
  | _ :: _, [] => .gt
  | a :: as, b :: bs => (a.compare b).then (compareComponents as bs)

/-- The order of paths. -/
def compare (p q : Path) : Ordering :=
  compareComponents p.components q.components

/-! ### Taking paths apart and putting them together -/

/-- Whether a path starts at the root. -/
def isAbsolute (p : Path) : Bool :=
  p.text.toList.head? == some '/'

/-- The written form of a component. -/
def componentText : Component → String
  | .root => "/"
  | .here => "."
  | .up => ".."
  | .name text => text

/-- A path with the given components. -/
def ofComponents : List Component → Path
  | .root :: rest => ⟨"/" ++ "/".intercalate (rest.map componentText)⟩
  | cs => ⟨"/".intercalate (cs.map componentText)⟩

/-- The pieces of a path, last piece first, without the pieces at its end that stand for no
component. -/
def dropOpenEnd : List (List Char) → List (List Char)
  | piece :: next :: before =>
    if piece = [] ∨ piece = ['.'] then dropOpenEnd (next :: before) else piece :: next :: before
  | pieces => pieces

/-- The path without its last component, otherwise as it is written; a path without any, and the
root, have none. -/
def parent? (p : Path) : Option Path :=
  match p.components with
  | [] => none
  | [.root] => none
  | _ =>
    let pieces := dropOpenEnd (Text.splitAt '/' p.text.toList).reverse
    match (dropOpenEnd pieces.tail).reverse with
    | [[]] => some ⟨"/"⟩
    | above => some ⟨"/".intercalate (above.map String.ofList)⟩

/-- The last component, if it is a name. -/
def fileName? (p : Path) : Option String :=
  match p.components.getLast? with
  | some (.name text) => some text
  | _ => none

/-- What follows the last dot of the file name, unless nothing stands before that dot. -/
def extension? (p : Path) : Option String := do
  let name := (← p.fileName?).toList.reverse
  let ending := name.takeWhile (· != '.')
  match name.drop ending.length with
  | '.' :: _ :: _ => some (String.ofList ending.reverse)
  | _ => none

/-- The path `q` as seen from the directory `p`. -/
def join (p q : Path) : Path :=
  if q.isAbsolute || p.text.isEmpty then q
  else if p.text.toList.getLast? = some '/' then ⟨p.text ++ q.text⟩
  else ⟨p.text ++ "/" ++ q.text⟩

end Path

end TreeLint
