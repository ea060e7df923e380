/-
TreeLint/Tree/Builder.lean

Building a tree in document order.  A build is a list of steps: open a
node, close the innermost open node, append a token, or queue trivia for the
next token.  Slots are numbered in the order in which elements are opened or
appended, so a host can record bindings while it builds.  The numbers are those
of their slots while there are at most `2 ^ 32` elements.

A step that cannot be carried out leaves the builder usable; the first such
fault is what `finish` reports.  Otherwise `finish` refuses a build that
leaves nodes open, then one without any element.  Trivia queued after the
last token is dropped.
-/
import TreeLint.Tree.Basic

namespace TreeLint

/-- One step of a build. -/
inductive BuildStep where
  | openNode (kind : Kind)
  | closeNode
  | addToken (kind : Kind) (text : String)
  | queueTrivia (text : String)
  deriving DecidableEq, Repr

/-- A tree under construction: the slots so far, the open nodes (innermost first), the root, the
queued trivia and the first fault. -/
structure Builder where
  slots : Array Slot := #[]
  openNodes : List NodeId := []
  root : Option NodeId := none
  pending : String := ""
  fault : Option TreeError := none
  deriving Repr, Inhabited

namespace Builder

/-- The number of elements so far, which is the number the next element gets. -/
def size (b : Builder) : Nat := b.slots.size

/-- Remembers a fault, unless there was one before. -/
def fail (b : Builder) (e : TreeError) : Builder :=
  { b with fault := b.fault <|> some e }

/-- Appends a slot as the last child of the innermost open node, or as the root. -/
def push (b : Builder) (slot : Slot) : Builder :=
  let added := { b with slots := b.slots.push slot }
  match b.openNodes with
  | parent :: _ =>
    { added with
      slots := added.slots.modify parent fun s => { s with children := s.children ++ [b.size] } }
  | [] => if b.root.isNone then { added with root := some b.size } else added.fail .multipleRoots

/-- Carries out one step. -/
def step (b : Builder) : BuildStep → Builder
  | .openNode kind =>
    let pushed := b.push { kind }
    { pushed with openNodes := b.size :: b.openNodes }
  | .closeNode =>
    match b.openNodes with
    | [] => b.fail .unbalancedFinish
    | _ :: rest => { b with openNodes := rest }
  | .addToken kind text =>
    let pushed := b.push { kind, token := some ⟨text, b.pending⟩ }
    { pushed with pending := "" }
  | .queueTrivia text => { b with pending := b.pending ++ text }

/-- Carries out steps in order. -/
def run (b : Builder) (steps : List BuildStep) : Builder :=
  steps.foldl step b

/-- The finished tree, or why there is none. -/
def finish (b : Builder) : Except TreeError Tree :=
  match b.fault with
  | some e => .error e
  | none =>
    if b.openNodes.isEmpty then
      match b.root with
      | none => .error .empty
      | some root => Tree.ofSlots b.slots root
    else .error (.unclosed b.openNodes.length)

end Builder

/-- The tree that a list of steps builds from nothing. -/
def Tree.ofSteps (steps : List BuildStep) : Except TreeError Tree :=
  (({} : Builder).run steps).finish

end TreeLint
