/-
TreeLint/PathMap.lean

Maps from paths, in the order of paths.  Paths with the same components are
one key, written the way it was written first.
-/
import TreeLint.Path

namespace TreeLint

/-- A map from paths, in their order. -/
abbrev PathMap (α : Type) := List (Path × α)

namespace PathMap

/-- The map with the value of one path exchanged by `f`, which is given the old value if there is
one. -/
def alter (m : PathMap α) (path : Path) (f : Option α → α) : PathMap α :=
  match m with
  | [] => [(path, f none)]
  | (p, v) :: rest =>
    match path.compare p with
    | .lt => (path, f none) :: (p, v) :: rest
    | .eq => (p, f (some v)) :: rest
    | .gt => (p, v) :: alter rest path f

/-- The value of a path. -/
def get? (m : PathMap α) (path : Path) : Option α :=
  (m.find? (·.1.same path)).map (·.2)

/-- Items under the path that `key` gives them, each list in the order of the items. -/
def group (key : α → Path) (items : List α) : PathMap (List α) :=
  items.foldl (fun m a => m.alter (key a) fun old => old.getD [] ++ [a]) []

end PathMap

end TreeLint
