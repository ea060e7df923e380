/-
TreeLint/Tree/Basic.lean

Trees as a host supplies them: a table of slots that refer to each other by
number, and the number of the root.  `Tree.ofSlots` accepts a table exactly
when it describes a tree below the root:

* the root is in range;
* no slot has both a token and children;
* every child is in range and is not the root;
* no slot is a child twice.

The first violation met is the error, slots being scanned by number, the
token check of a slot before its children.  Slots that the root does not
reach are allowed; they have parents and children but empty spans at 0.

A `Tree` carries the proof that its table was accepted, and `Tree.top`, the
ordered tree below the root with all spans in place.
-/
import TreeLint.Tree.Element

namespace TreeLint

/-- Why a tree cannot be assembled. -/
inductive TreeError where
  | empty
  | unclosed (count : Nat)
  | unbalancedFinish
  | multipleRoots
  | danglingChild (node child : NodeId)
  | tokenWithChildren (node : NodeId)
  | sharedChild (node : NodeId)
  | unknownNode (node : NodeId)
  deriving DecidableEq, Repr

namespace TreeError

/-- The message shown for the error. -/
def message : TreeError → String
  | empty => "tree has no root node"
  | unclosed n => toString n ++ " node(s) were started but never finished"
  | unbalancedFinish => "finish_node called with no open node"
  | multipleRoots => "element outside the root node"
  | danglingChild n c =>
    "node " ++ toString n ++ " refers to missing child " ++ toString c
  | tokenWithChildren n => "token " ++ toString n ++ " cannot have children"
  | sharedChild n => "node " ++ toString n ++ " has more than one parent"
  | unknownNode n => "node " ++ toString n ++ " does not exist in this tree"

end TreeError

/-- One entry of a tree's table. -/
structure Slot where
  kind : Kind
  children : List NodeId := []
  token : Option Token := none
  deriving DecidableEq, Repr, Inhabited

/-- For each slot, the slot it is a child of. -/
abbrev ParentTable := Array (Option NodeId)

namespace Tree

/-! ### Validation -/

/-- Records `parent` as the parent of each child in turn. -/
def adopt (root parent : NodeId) : List NodeId → ParentTable → Except TreeError ParentTable
  | [], parents => .ok parents
  | c :: cs, parents =>
    match parents[c]? with
    | none => .error (.danglingChild parent c)
    | some owner =>
      if c = root then .error (.danglingChild parent c)
      else if owner.isSome then .error (.sharedChild c)
      else adopt root parent cs (parents.setIfInBounds c (some parent))

/-- Checks the slots from number `index` on. -/
def adoptAll (root : NodeId) :
    (index : NodeId) → List Slot → ParentTable → Except TreeError ParentTable
  | _, [], parents => .ok parents
  | index, s :: rest, parents =>
    if s.token.isSome && !s.children.isEmpty then .error (.tokenWithChildren index)
    else
      match adopt root index s.children parents with
      | .error e => .error e
      | .ok parents => adoptAll root (index + 1) rest parents

/-- The parents of all slots, or the first violation. -/
def parentTable (slots : Array Slot) (root : NodeId) : Except TreeError ParentTable :=
  if slots.size ≤ root then .error .empty
  else adoptAll root 0 slots.toList (Array.replicate slots.size none)

/-! ### From the table to the ordered tree -/

/-- The ordered tree below a slot, without spans, to a depth of at most `depth`.  The depth of a
tree never exceeds the number of its slots, so that number cuts nothing off. -/
def unfold (slots : Array Slot) : (depth : Nat) → NodeId → Element
  | 0, id => .node ⟨id, ((slots[id]?).map (·.kind)).getD default, ⟨0, 0⟩, ⟨0, 0⟩⟩ []
  | depth + 1, id =>
    match slots[id]? with
    | none => .node ⟨id, default, ⟨0, 0⟩, ⟨0, 0⟩⟩ []
    | some s =>
      let label : Label := ⟨id, s.kind, ⟨0, 0⟩, ⟨0, 0⟩⟩
      match s.token with
      | some t => .token label t
      | none => .node label (s.children.map (unfold slots depth))

end Tree

/-- An accepted table of slots with its root.  The parents and the ordered tree are determined by
the table. -/
structure Tree where
  slots : Array Slot
  root : NodeId
  parents : ParentTable
  top : Element
  accepted : Tree.parentTable slots root = .ok parents
  top_eq : top = (Tree.unfold slots slots.size root).place 0

namespace Tree

/-- The tree of a table, if the table is accepted.  The table is to have at most `2 ^ 32` slots;
past them the number of a slot does not fit in 32 bits, though the references of a table that was
read do (`Tree.lt_of_read`). -/
def ofSlots (slots : Array Slot) (root : NodeId) : Except TreeError Tree :=
  match h : parentTable slots root with
  | .error e => .error e
  | .ok parents => .ok ⟨slots, root, parents, (unfold slots slots.size root).place 0, h, rfl⟩

/-- The number of slots. -/
def size (t : Tree) : Nat := t.slots.size

/-- The rendered source text. -/
def text (t : Tree) : String := t.top.fullText

/-- The element of a slot.  Below the root it has its spans; elsewhere its spans are empty. -/
def element? (t : Tree) (id : NodeId) : Option Element :=
  if id < t.size then some ((t.top.find? id).getD (unfold t.slots t.size id)) else none

/-- The slot that a slot is a child of. -/
def parent? (t : Tree) (id : NodeId) : Option NodeId :=
  (t.parents[id]?).join

/-- The chain of parents of a slot, nearest first, to a length of at most `bound`. -/
def parentChain (t : Tree) : (bound : Nat) → NodeId → List NodeId
  | 0, _ => []
  | bound + 1, id =>
    match t.parent? id with
    | none => []
    | some p => p :: parentChain t bound p

/-- The elements that a slot lies in, nearest first, itself left out. -/
def ancestors (t : Tree) (id : NodeId) : List Element :=
  (t.parentChain t.size id).filterMap t.element?

/-- The place of a slot among its parent's children. -/
def indexInParent? (t : Tree) (id : NodeId) : Option Nat := do
  let p ← t.parent? id
  let slot ← t.slots[p]?
  slot.children.findIdx? (· == id)

/-- The innermost node that has exactly the given span. -/
def nodeAt? (t : Tree) (span : Span) : Option Element :=
  if t.top.span.contains span then t.top.nodeAt? span else none

end Tree

end TreeLint
