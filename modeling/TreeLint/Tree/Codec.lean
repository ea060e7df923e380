/-
TreeLint/Tree/Codec.lean

Trees in JSON.  Only the table and the root are written; parents and spans
are found again on reading.  Empty lists of children, absent tokens and
empty trivia are left out.
-/
import TreeLint.Named
import TreeLint.Tree.Basic

namespace TreeLint

instance : Named Kind where
  all := Kind.all
  name := Kind.name

/-- Reads a slot number. -/
def NodeId.read? : Json.Reader NodeId := Json.asNat? 32

namespace Token

/-- Reads a token. -/
def read? : Json.Reader Token := fun v => do
  let r ← v.asRecord? ["text", "leading_trivia"]
  return ⟨← r.required "text" Json.asString?, ← r.defaulted "leading_trivia" "" Json.asString?⟩

/-- Writes a token. -/
def write (t : Token) : Json :=
  .ofFields (("text", .string t.text) ::
    (if t.trivia.isEmpty then [] else [("leading_trivia", .string t.trivia)]))

end Token

namespace Slot

/-- Reads a slot. -/
def read? : Json.Reader Slot := fun v => do
  let r ← v.asRecord? ["kind", "children", "token"]
  return {
    kind := ← r.required "kind" Named.read?
    children := ← r.defaulted "children" [] (Json.asList? NodeId.read?)
    token := ← r.optional "token" Token.read? }

/-- Writes a slot. -/
def write (s : Slot) : Json :=
  .ofFields ([("kind", Named.write s.kind)]
    ++ (if s.children.isEmpty then [] else [("children", Json.ofList .nat s.children)])
    ++ (s.token.map fun t => ("token", t.write)).toList)

end Slot

namespace Tree

/-- Reads the table and the root of a tree, which remain to be checked. -/
def readParts? : Json.Reader (Array Slot × NodeId) := fun v => do
  let r ← v.asRecord? ["root", "nodes"]
  let root ← r.required "root" NodeId.read?
  let slots ← r.required "nodes" (Json.asList? Slot.read?)
  return (slots.toArray, root)

/-- Writes a tree. -/
def write (t : Tree) : Json :=
  .ofFields [("root", .nat t.root), ("nodes", Json.ofList Slot.write t.slots.toList)]

end Tree

end TreeLint
