/-
TreeLint/FileTree.lean

Files and directories as a value.  A place in the tree is the list of names
that leads to it from the root.  A relative path starts from the working
directory, `..` at the root stays there, and every directory on the way has
to exist.  Names have at most 255 bytes and paths at most 4095, without a NUL
among them.
-/
import TreeLint.Path

namespace TreeLint

/-- Why a file or directory cannot be read or made. -/
inductive FileError where
  | notFound
  | alreadyExists
  | notDirectory
  | isDirectory
  | nameTooLong
  | nulInName
  deriving DecidableEq, Repr

/-- The message shown for the error. -/
def FileError.message : FileError → String
  | notFound => "No such file or directory (os error 2)"
  | alreadyExists => "File exists (os error 17)"
  | notDirectory => "Not a directory (os error 20)"
  | isDirectory => "Is a directory (os error 21)"
  | nameTooLong => "File name too long (os error 36)"
  | nulInName => "file name contained an unexpected NUL byte"

/-- Files with their content, directories that need not hold any, and the working directory. -/
structure FileTree where
  files : List (List String × String) := []
  directories : List (List String) := []
  here : List String := []
  deriving Repr, Inhabited

namespace FileTree

/-! ### Looking -/

/-- What a place in the tree holds. -/
inductive Entry where
  | file (content : String)
  | directory
  deriving DecidableEq, Repr

/-- What stands at the end of a list of names. -/
def entry? (t : FileTree) (names : List String) : Option Entry :=
  match t.files.lookup names with
  | some content => some (.file content)
  | none =>
    if names.isEmpty || names.isPrefixOf t.here || t.directories.any names.isPrefixOf
        || t.files.any (names.isPrefixOf ·.1) then some .directory
    else none

/-- Refuses a path that cannot be one of a file. -/
def checkPath (p : Path) : Except FileError Unit :=
  if p.text.toList.contains '\x00' then .error .nulInName
  else if p.text.isEmpty then .error .notFound
  else if 4096 ≤ p.text.utf8ByteSize then .error .nameTooLong
  else .ok ()

/-- Whether a name is too long for a file. -/
def isTooLong (name : String) : Bool := 255 < name.utf8ByteSize

/-- Where steps lead to from a directory, if they lead anywhere. -/
def placeOf : (start : List String) → List Component → List String
  | names, [] => names
  | _, .root :: rest => placeOf [] rest
  | names, .here :: rest => placeOf names rest
  | names, .up :: rest => placeOf names.dropLast rest
  | names, .name text :: rest => placeOf (names ++ [text]) rest

/-- Goes along steps from a directory. -/
def resolve (t : FileTree) : (start : List String) → List Component →
    Except FileError (List String)
  | names, [] => .ok names
  | _, .root :: rest => resolve t [] rest
  | names, .here :: rest => resolve t names rest
  | names, .up :: rest => resolve t names.dropLast rest
  | names, .name text :: rest =>
    if isTooLong text then .error .nameTooLong
    else match t.entry? (names ++ [text]) with
    | none => .error .notFound
    | some .directory => resolve t (names ++ [text]) rest
    | some (.file _) => if rest.isEmpty then .ok (names ++ [text]) else .error .notDirectory

/-- Whether a path is written as one of a directory. -/
def endsOpen (p : Path) : Bool := p.text.toList.getLast? == some '/'

/-- What stands at a path. -/
def lookup (t : FileTree) (p : Path) : Except FileError Entry := do
  checkPath p
  let names ← t.resolve t.here p.steps
  match t.entry? names with
  | none => .error .notFound
  | some .directory => return .directory
  | some (.file content) => if endsOpen p then .error .notDirectory else return .file content

/-- Whether anything stands at a path. -/
def exists? (t : FileTree) (p : Path) : Bool :=
  match t.lookup p with
  | .ok _ => true
  | .error _ => false

/-- Whether a directory stands at a path. -/
def isDirectory (t : FileTree) (p : Path) : Bool :=
  match t.lookup p with
  | .ok .directory => true
  | _ => false

/-- Whether a file stands at a path. -/
def isFile (t : FileTree) (p : Path) : Bool :=
  match t.lookup p with
  | .ok (.file _) => true
  | _ => false

/-- The content of a file. -/
def read (t : FileTree) (p : Path) : Except FileError String :=
  match t.lookup p with
  | .error e => .error e
  | .ok .directory => .error .isDirectory
  | .ok (.file content) => .ok content

/-! ### Listing -/

/-- Places by their names in order, a directory before what it holds. -/
def comparePlaces : List String → List String → Ordering
  | [], [] => .eq
  | [], _ :: _ => .lt
  | _ :: _, [] => .gt
  | a :: as, b :: bs =>
    if a = b then comparePlaces as bs else if a < b then .lt else .gt

/-- The places on the way to a place, itself included, the root left out. -/
def wayTo (names : List String) : List (List String) :=
  (List.range names.length).map fun n => names.take (n + 1)

/-- All places in the tree, the root left out. -/
def places (t : FileTree) : List (List String) :=
  (t.files.map (·.1) ++ t.here :: t.directories).flatMap wayTo

/-- What stands below a directory at any depth, as names from there, in order. -/
def below (t : FileTree) (p : Path) : List (List String) :=
  match t.resolve t.here p.steps with
  | .error _ => []
  | .ok names =>
    let found := t.places.filterMap fun place =>
      if names.isPrefixOf place && names.length < place.length then some (place.drop names.length)
      else none
    (found.mergeSort fun a b => comparePlaces a b != .gt).eraseReps

/-- The names of what stands in a directory, in order. -/
def children (t : FileTree) (p : Path) : List String :=
  (t.below p).filterMap fun
    | [name] => some name
    | _ => none

/-! ### Changing -/

/-- The tree with a file, whatever stood there. -/
def putFile (t : FileTree) (names : List String) (content : String) : FileTree :=
  { t with files := t.files.filter (·.1 != names) ++ [(names, content)] }

/-- The tree with a directory. -/
def putDirectory (t : FileTree) (names : List String) : FileTree :=
  { t with directories := t.directories ++ [names] }

/-- The directory that steps lead to, given last step first. -/
def directoryAt (t : FileTree) (steps : List Component) : Except FileError (List String) := do
  let names ← t.resolve t.here steps.reverse
  match t.entry? names with
  | some .directory => return names
  | some (.file _) => .error .notDirectory
  | none => .error .notFound

/-- Makes the directory that components lead to, given last component first. -/
def makeDirectory (t : FileTree) : List Component → Except FileError FileTree
  | .name text :: above => do
    let parent ← t.directoryAt above
    if isTooLong text then .error .nameTooLong
    match t.entry? (parent ++ [text]) with
    | some _ => .error .alreadyExists
    | none => return t.putDirectory (parent ++ [text])
  | _ :: above => do
    let _ ← t.directoryAt above
    .error .alreadyExists
  | [] => .error .notFound

/-- Whether components, given last component first, lead to a directory. -/
def leadsToDirectory (t : FileTree) (components : List Component) : Bool :=
  match t.directoryAt components with
  | .error _ => false
  | .ok _ => true

/-- Makes a directory that may be there already, given last component first. -/
def allowDirectory (t : FileTree) (components : List Component) : Except FileError FileTree :=
  match t.makeDirectory components with
  | .ok made => .ok made
  | .error e => if t.leadsToDirectory components then .ok t else .error e

/-- Makes the directory that components lead to, given last component first, and those above it
that are missing. -/
def makeDirectories (t : FileTree) : List Component → Except FileError FileTree
  | [] => .ok t
  | c :: above =>
    match t.allowDirectory (c :: above) with
    | .error .notFound => do
      let made ← makeDirectories t above
      made.allowDirectory (c :: above)
    | result => result

/-- Makes a directory and those above it that are missing; the working directory is there. -/
def ensureDirectory (t : FileTree) (p : Path) : Except FileError FileTree :=
  match p.components, checkPath p with
  | [], _ => .ok t
  | _, .error e => .error e
  | components, .ok _ => t.makeDirectories components.reverse

/-- Writes a file into a directory that exists.  A path that is written as one of a directory is
none of a file, whatever its last name. -/
def write (t : FileTree) (p : Path) (content : String) : Except FileError FileTree := do
  checkPath p
  match p.steps.reverse with
  | .name text :: above => do
    let parent ← t.directoryAt above
    if endsOpen p then .error .isDirectory
    if isTooLong text then .error .nameTooLong
    match t.entry? (parent ++ [text]) with
    | some .directory => .error .isDirectory
    | _ => return t.putFile (parent ++ [text]) content
  | [] => .error .notFound
  | _ :: above => do
    let _ ← t.directoryAt above
    .error .isDirectory

end FileTree

end TreeLint
