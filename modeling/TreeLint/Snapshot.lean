/-
TreeLint/Snapshot.lean

Compilations: the units a host hands over, with the symbols they share, and
their snapshots in JSON.

A snapshot can be wrong in shape, or one of its trees or its symbol table
can be refused.  The first fault in the order of the text counts.  Reading
what was written gives the compilation back.
-/
import TreeLint.Json.Printer
import TreeLint.Path
import TreeLint.Symbol.Codec

namespace TreeLint

/-- One source file: its tree, what the host knows about its nodes, and whether the host says
that it is generated. -/
structure SourceUnit where
  path : Path
  tree : Tree
  bindings : Bindings := {}
  generated : Bool := false

/-- Everything that one analysis reads. -/
structure Compilation where
  symbols : SymbolTable := .empty
  units : List SourceUnit := []

/-- Why a snapshot cannot be read. -/
inductive SnapshotError where
  | shape
  | tree (error : TreeError)
  | symbols (error : SymbolError)
  deriving DecidableEq, Repr

/-- The message of a refused tree or table; a fault of shape has none of its own. -/
def SnapshotError.message? : SnapshotError → Option String
  | shape => none
  | tree e => some e.message
  | symbols e => some e.message

namespace SnapshotError

/-- A fault of shape where nothing was read. -/
def ofOption : Option α → Except SnapshotError α
  | none => .error .shape
  | some a => .ok a

end SnapshotError

namespace Tree

/-- Reads and checks a tree. -/
def read (v : Json) : Except SnapshotError Tree :=
  match readParts? v with
  | none => .error .shape
  | some (slots, root) => (ofSlots slots root).mapError .tree

end Tree

namespace SymbolTable

/-- Reads and checks a table. -/
def read (v : Json) : Except SnapshotError SymbolTable :=
  match v.asList? Symbol.read? with
  | none => .error .shape
  | some symbols => (ofList symbols).mapError .symbols

end SymbolTable

namespace SourceUnit

/-- The symbols and bindings that an analysis of the unit sees. -/
def model (u : SourceUnit) (symbols : SymbolTable) : Model := ⟨symbols, u.bindings⟩

/-- A unit of which some fields have been read. -/
structure Draft where
  path : Option Path := none
  tree : Option Tree := none
  bindings : Bindings := {}
  generated : Bool := false

/-- Reads one field of a unit. -/
def readField (d : Draft) (name : String) (v : Json) : Except SnapshotError Draft :=
  match name with
  | "path" => (SnapshotError.ofOption v.asString?).map fun p => { d with path := some ⟨p⟩ }
  | "tree" => (Tree.read v).map fun t => { d with tree := some t }
  | "bindings" => (SnapshotError.ofOption (Bindings.read? v)).map fun b => { d with bindings := b }
  | _ => (SnapshotError.ofOption v.asBool?).map fun g => { d with generated := g }

/-- Reads a unit. -/
def read (v : Json) : Except SnapshotError SourceUnit :=
  match v.foldRecord ["path", "tree", "bindings", "generated"] .shape readField {} with
  | .error e => .error e
  | .ok ⟨some path, some tree, bindings, generated⟩ => .ok ⟨path, tree, bindings, generated⟩
  | .ok _ => .error .shape

/-- Writes a unit. -/
def write (u : SourceUnit) : Json :=
  .ofFields [("path", .string u.path.text), ("tree", u.tree.write), ("bindings", u.bindings.write),
    ("generated", .bool u.generated)]

end SourceUnit

namespace Compilation

/-- The first unit with a given path. -/
def unit? (c : Compilation) (path : Path) : Option SourceUnit :=
  c.units.find? (·.path.same path)

/-- Reads one field of a compilation. -/
def readField (c : Compilation) (name : String) (v : Json) : Except SnapshotError Compilation :=
  match name with
  | "symbols" => (SymbolTable.read v).map fun s => { c with symbols := s }
  | _ => (v.foldItems .shape SourceUnit.read).map fun us => { c with units := us }

/-- Reads a compilation. -/
def read (v : Json) : Except SnapshotError Compilation :=
  v.foldRecord ["symbols", "units"] .shape readField {}

/-- Writes a compilation. -/
def write (c : Compilation) : Json :=
  .ofFields [("symbols", c.symbols.write), ("units", Json.ofList SourceUnit.write c.units)]

/-- Reads a snapshot. -/
def ofText (text : String) : Except SnapshotError Compilation :=
  match Json.parse text with
  | (v, ended) =>
    match read v with
    | .error e => .error e
    | .ok c => if ended then .ok c else .error .shape

/-- The snapshot of a compilation. -/
def toText (c : Compilation) : String :=
  c.write.pretty

end Compilation

end TreeLint
