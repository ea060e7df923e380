/-
TreeLint/Tree/Edits.lean

Edits of a tree.  The tree itself never changes: edits are collected and
carried out together, giving a fresh tree whose slots are numbered in
document order.

* A replaced element becomes the replacement, whose first token takes over
  the trivia of the element; the last replacement given for an element wins.
  Edits below a replaced element have no effect.
* A token is copied, and insertions into it have no effect.
* Any other node keeps its kind.  Fragments inserted at index `i` stand
  before its `i`-th child in the order given; those at or past the number of
  children come last.

Edits are carried out by one loop over a stack of tasks (`Edits.copy`) that
drives a builder.  The trivia that a replacement takes over waits in a cell
next to the stack, until the first token of the replacement or the end of the
replacement comes.  Each task weighs more than the tasks that take its place,
so the loop ends.
-/
import TreeLint.Tree.Builder

namespace TreeLint

/-- A fragment to be inserted into `parent` before its child at `index`. -/
structure Insertion where
  parent : NodeId
  index : Nat
  fragment : Tree

/-- The edits collected against a tree, in the order given. -/
structure Edits where
  replacements : List (NodeId × Tree) := []
  insertions : List Insertion := []

/-- A step of copying a tree under edits. -/
inductive CopyTask where
  /-- An element of the edited tree. -/
  | source (e : Element)
  /-- An element of a replacement or of an inserted fragment. -/
  | verbatim (e : Element)
  /-- A replacement is done. -/
  | endReplacement
  /-- The children of a node are done. -/
  | closeNode

namespace Edits

/-- Also puts `replacement` in the place of `target`. -/
def replace (edits : Edits) (target : NodeId) (replacement : Tree) : Edits :=
  { edits with replacements := edits.replacements ++ [(target, replacement)] }

/-- Also inserts `fragment` into `parent` before its child at `index`. -/
def insert (edits : Edits) (parent : NodeId) (index : Nat) (fragment : Tree) : Edits :=
  { edits with insertions := edits.insertions ++ [⟨parent, index, fragment⟩] }

/-- The replacement of an element: the last one given. -/
def replacement? (edits : Edits) (id : NodeId) : Option Tree :=
  (edits.replacements.reverse.find? (·.1 == id)).map (·.2)

/-- The fragments inserted into a node at the indices that satisfy `p`, in the order given. -/
def fragments (edits : Edits) (parent : NodeId) (p : Nat → Bool) : List Tree :=
  (edits.insertions.filter fun i => i.parent == parent && p i.index).map (·.fragment)

/-- The slots that the edits refer to. -/
def targets (edits : Edits) : List NodeId :=
  edits.replacements.map (·.1) ++ edits.insertions.map (·.parent)

/-! ### Copying -/

/-- The tasks for the children of `parent` from number `index` on, with what is inserted there. -/
def childTasks (edits : Edits) (parent : NodeId) : (index : Nat) → List Element → List CopyTask
  | index, [] => (edits.fragments parent (index ≤ ·)).map (.verbatim ·.top)
  | index, c :: cs =>
    (edits.fragments parent (· == index)).map (.verbatim ·.top)
      ++ .source c :: childTasks edits parent (index + 1) cs

/-- What comes of a task: the tasks that take its place, the trivia that waits from then on, and
the build steps to be carried out. -/
structure Advance where
  tasks : List CopyTask := []
  waiting : Option String := none
  steps : List BuildStep := []

/-- Works on one task, given the trivia that waits. -/
def advance (edits : Edits) (waiting : Option String) : CopyTask → Advance
  | .source e =>
    match edits.replacement? e.id with
    | some r => { tasks := [.verbatim r.top, .endReplacement], waiting := some e.leadingTrivia }
    | none =>
      match e with
      | .token l t => { waiting, steps := [.queueTrivia t.trivia, .addToken l.kind t.text] }
      | .node l cs =>
        { tasks := edits.childTasks l.id 0 cs ++ [.closeNode]
          waiting
          steps := [.openNode l.kind] }
  | .verbatim (.token l t) =>
    { steps := [.queueTrivia (waiting.getD t.trivia), .addToken l.kind t.text] }
  | .verbatim (.node l cs) =>
    { tasks := cs.map .verbatim ++ [.closeNode], waiting, steps := [.openNode l.kind] }
  | .endReplacement => {}
  | .closeNode => { waiting, steps := [.closeNode] }

/-! ### Copying ends -/

mutual

/-- The weight of copying an element as it is. -/
def verbatimWeight : Element → Nat
  | .token _ _ => 1
  | .node _ cs => verbatimWeightAll cs + 2

/-- The weight of copying several elements as they are. -/
def verbatimWeightAll : List Element → Nat
  | [] => 0
  | c :: cs => verbatimWeight c + verbatimWeightAll cs

end

/-- The weight of copying fragments. -/
def fragmentsWeight (fragments : List Tree) : Nat :=
  verbatimWeightAll (fragments.map (·.top))

mutual

/-- The weight of copying an element under the edits. -/
def sourceWeight (edits : Edits) : Element → Nat
  | .token l _ =>
    match edits.replacement? l.id with
    | some r => verbatimWeight r.top + 2
    | none => 1
  | .node l cs =>
    match edits.replacement? l.id with
    | some r => verbatimWeight r.top + 2
    | none => sourceWeightAll edits l.id 0 cs + 2

/-- The weight of copying the children of `parent` from number `index` on, with what is inserted
there. -/
def sourceWeightAll (edits : Edits) (parent : NodeId) : (index : Nat) → List Element → Nat
  | index, [] => fragmentsWeight (edits.fragments parent (index ≤ ·))
  | index, c :: cs =>
    fragmentsWeight (edits.fragments parent (· == index))
      + (sourceWeight edits c + sourceWeightAll edits parent (index + 1) cs)

end

/-- The weight of a task. -/
def weight (edits : Edits) : CopyTask → Nat
  | .source e => edits.sourceWeight e
  | .verbatim e => verbatimWeight e
  | .endReplacement => 1
  | .closeNode => 1

/-- The weight of several tasks. -/
def weightAll (edits : Edits) : List CopyTask → Nat
  | [] => 0
  | task :: tasks => edits.weight task + weightAll edits tasks

theorem weightAll_append (edits : Edits) (tasks rest : List CopyTask) :
    edits.weightAll (tasks ++ rest) = edits.weightAll tasks + edits.weightAll rest := by
  induction tasks with
  | nil => simp [weightAll]
  | cons task tasks ih => rw [List.cons_append, weightAll, weightAll, ih, Nat.add_assoc]

theorem weightAll_verbatim (edits : Edits) (cs : List Element) :
    edits.weightAll (cs.map .verbatim) = verbatimWeightAll cs := by
  induction cs with
  | nil => rfl
  | cons c cs ih => rw [List.map_cons, weightAll, ih, verbatimWeightAll, weight]

theorem weightAll_fragments (edits : Edits) (fragments : List Tree) :
    edits.weightAll (fragments.map (.verbatim ·.top)) = fragmentsWeight fragments := by
  rw [fragmentsWeight, ← weightAll_verbatim, List.map_map]
  rfl

theorem weightAll_childTasks (edits : Edits) (parent : NodeId) (index : Nat) (cs : List Element) :
    edits.weightAll (edits.childTasks parent index cs) = edits.sourceWeightAll parent index cs := by
  induction cs generalizing index with
  | nil => rw [childTasks, weightAll_fragments, sourceWeightAll]
  | cons c cs ih =>
    rw [childTasks, weightAll_append, weightAll_fragments, weightAll, ih, sourceWeightAll, weight]

/-- The tasks that take the place of a task weigh less. -/
theorem weightAll_advance_lt (edits : Edits) (waiting : Option String) (task : CopyTask) :
    edits.weightAll (edits.advance waiting task).tasks < edits.weight task := by
  cases task with
  | source e =>
    cases e with
    | token l t =>
      simp only [advance, weight, sourceWeight, Element.id, Element.label]
      split <;> simp [weightAll, weight]
    | node l cs =>
      simp only [advance, weight, sourceWeight, Element.id, Element.label]
      split
      · simp [weightAll, weight]
      · simp only [weightAll_append, weightAll_childTasks, weightAll, weight]
        omega
  | verbatim e =>
    rw [weight]
    cases e with
    | token l t => simp [advance, weightAll, verbatimWeight]
    | node l cs =>
      simp only [advance, weightAll_append, weightAll_verbatim, weightAll, weight, verbatimWeight]
      omega
  | endReplacement => simp [advance, weightAll, weight]
  | closeNode => simp [advance, weightAll, weight]

/-- Works on a stack of tasks until it is empty. -/
def copy (edits : Edits) (waiting : Option String) (b : Builder) : List CopyTask → Builder
  | [] => b
  | task :: rest =>
    let next := edits.advance waiting task
    copy edits next.waiting (b.run next.steps) (next.tasks ++ rest)
termination_by tasks => edits.weightAll tasks
decreasing_by
  rw [weightAll_append, weightAll]
  exact Nat.add_lt_add_right (edits.weightAll_advance_lt waiting task) _

end Edits

/-- The tree after the edits; it is an error to refer to a slot that the tree does not have.  The
fresh tree is built, so it too is to have at most `2 ^ 32` slots. -/
def Tree.edit (t : Tree) (edits : Edits) : Except TreeError Tree :=
  match edits.targets.find? (t.size ≤ ·) with
  | some id => .error (.unknownNode id)
  | none => (edits.copy none {} [.source t.top]).finish

end TreeLint
