/-
TreeLint/Proofs/Tree/Builds.lean

What a sequence of build steps comes to, well nested or not.

How deep a sequence is, and how many elements it makes at top level, can be
told from the steps alone (`depth`, `topLevel`), and so can which steps cannot
be carried out (`Builder.Faulty`).  A builder keeps track of just that: after any
steps its open nodes are as many as the steps are deep, and the fault it
remembers is the first one (`Builder.follows_run`).

What is built is said through a *sketch*: the shapes finished so far, the open
nodes with the children they have, and the trivia that waits.  A sketch can be
written out as steps again, in which all trivia stands right before its token.
Those steps do the same as the steps the sketch was made from
(`Sketch.run_steps`).  Once everything is closed and there is one element at top
level, the sketch is one shape, and what the steps of a shape build is known.
So the check of the finished table never fails, and the slots are numbered in
document order.

A token with trivia of its own is two steps: the trivia is queued, then the
token is appended.
-/
import TreeLint.Proofs.Tree.Acceptance
import TreeLint.Proofs.Tree.Building
import Mathlib.Data.List.DropRight

namespace TreeLint

/-! ### Sequences of steps -/

namespace BuildStep

/-- What the step makes, if it makes an element: its kind, and its text if it is a token. -/
def element? : BuildStep → Option (Kind × Option String)
  | .openNode kind => some (kind, none)
  | .addToken kind text => some (kind, some text)
  | .closeNode | .queueTrivia _ => none

/-- Whether the step makes an element. -/
def isElement (x : BuildStep) : Bool := x.element?.isSome

/-- Whether the step appends a token. -/
def isToken : BuildStep → Bool
  | .addToken _ _ => true
  | .openNode _ | .closeNode | .queueTrivia _ => false

/-- The source text that the step brings. -/
def text : BuildStep → String
  | .addToken _ text | .queueTrivia text => text
  | .openNode _ | .closeNode => ""

/-- The number of open nodes after the step. -/
def depthAfter (depth : Nat) : BuildStep → Nat
  | .openNode _ => depth + 1
  | .closeNode => depth - 1
  | .addToken _ _ | .queueTrivia _ => depth

/-- The number of nodes that the steps leave open. -/
def depth (steps : List BuildStep) : Nat := steps.foldl depthAfter 0

/-- The number of elements that the steps make while no node is open, `depth` nodes being open at
first. -/
def topLevelFrom : (depth : Nat) → List BuildStep → Nat
  | _, [] => 0
  | depth, x :: xs =>
    (if x.isElement && depth == 0 then 1 else 0) + topLevelFrom (x.depthAfter depth) xs

/-- The number of elements that the steps make at top level. -/
def topLevel (steps : List BuildStep) : Nat := topLevelFrom 0 steps

/-- No node is closed while none is open. -/
def NoUnderflow (steps : List BuildStep) : Prop :=
  ∀ before after, steps = before ++ .closeNode :: after → 0 < depth before

/-- The source text that the steps bring, in order. -/
def textAll (steps : List BuildStep) : String := .join (steps.map text)

variable {steps : List BuildStep} {x : BuildStep}

theorem depth_append_singleton : depth (steps ++ [x]) = x.depthAfter (depth steps) := by
  rw [depth, List.foldl_append]
  rfl

theorem topLevelFrom_append (d : Nat) (xs ys : List BuildStep) :
    topLevelFrom d (xs ++ ys)
      = topLevelFrom d xs + topLevelFrom (xs.foldl depthAfter d) ys := by
  induction xs generalizing d with
  | nil => rw [List.nil_append, topLevelFrom, Nat.zero_add, List.foldl_nil]
  | cons x xs ih => rw [List.cons_append, topLevelFrom, ih, topLevelFrom, Nat.add_assoc]; rfl

theorem topLevel_append_singleton :
    topLevel (steps ++ [x])
      = topLevel steps + if x.isElement && depth steps == 0 then 1 else 0 := by
  rw [topLevel, topLevelFrom_append, topLevelFrom, topLevelFrom, Nat.add_zero]
  rfl

theorem textAll_append_singleton : textAll (steps ++ [x]) = textAll steps ++ x.text := by
  rw [textAll, List.map_append, String.join_append, textAll, List.map_singleton,
    String.join_cons, String.join_nil, String.append_empty]

instance (steps : List BuildStep) : Decidable (NoUnderflow steps) :=
  decidable_of_iff
    (∀ i < steps.length, steps[i]? = some .closeNode → 0 < depth (steps.take i)) <| by
    constructor
    · rintro h before after rfl
      have hlt : before.length < (before ++ .closeNode :: after).length := by simp
      have hbefore := h before.length hlt (by simp)
      rwa [List.take_left] at hbefore
    · intro h i hi hclose
      obtain ⟨_, hget⟩ := List.getElem?_eq_some_iff.mp hclose
      refine h (steps.take i) (steps.drop (i + 1)) ?_
      rw [← hget, List.getElem_cons_drop, List.take_append_drop]

theorem noUnderflow_nil : NoUnderflow [] := by
  intro before after h
  cases before <;> cases h

theorem noUnderflow_append_singleton :
    NoUnderflow (steps ++ [x]) ↔ NoUnderflow steps ∧ (x = .closeNode → 0 < depth steps) := by
  constructor
  · intro h
    refine ⟨?_, ?_⟩
    · rintro before after rfl
      exact h before (after ++ [x]) (by rw [List.append_assoc, List.cons_append])
    · rintro rfl
      exact h steps [] rfl
  · rintro ⟨hsteps, hx⟩ before after h
    rcases eq_append_cons_of_append_singleton_eq h with ⟨rfl, rfl⟩ | ⟨rest, hrest⟩
    · exact hx rfl
    · exact hsteps before rest hrest

end BuildStep

namespace Builder

open BuildStep

/-- Why a step cannot be carried out after the steps before it. -/
inductive Faulty (before : List BuildStep) : BuildStep → TreeError → Prop
  | unbalancedFinish : depth before = 0 → Faulty before .closeNode .unbalancedFinish
  | multipleRoots {x : BuildStep} :
      x.isElement = true → depth before = 0 → 0 < topLevel before →
      Faulty before x .multipleRoots

/-- Without faults means: nothing is closed that is not open, and there is at most one element at
top level. -/
theorem faultless_iff {steps : List BuildStep} :
    Faultless Faulty steps ↔ NoUnderflow steps ∧ topLevel steps ≤ 1 := by
  induction steps using List.reverseRecOn with
  | nil => exact iff_of_true faultless_nil ⟨noUnderflow_nil, Nat.zero_le _⟩
  | append_singleton steps x ih =>
    have hx : (∀ e, ¬ Faulty steps x e) ↔
        (x = .closeNode → 0 < depth steps) ∧
          (x.isElement = true → depth steps = 0 → topLevel steps = 0) := by
      constructor
      · intro h
        refine ⟨?_, ?_⟩
        · rintro rfl
          exact Nat.pos_of_ne_zero fun hdepth => h _ (.unbalancedFinish hdepth)
        · intro hx hdepth
          exact Nat.eq_zero_of_not_pos fun hpos => h _ (.multipleRoots hx hdepth hpos)
      · rintro ⟨hclose, helement⟩ e (hdepth | ⟨hx, hdepth, hpos⟩)
        · exact absurd hdepth (Nat.ne_of_gt (hclose rfl))
        · exact absurd (helement hx hdepth) (Nat.ne_of_gt hpos)
    have hcount : topLevel (steps ++ [x]) ≤ 1 ↔ topLevel steps ≤ 1 ∧
        (x.isElement = true → depth steps = 0 → topLevel steps = 0) := by
      rw [topLevel_append_singleton]
      cases x.isElement
      · simp
      · by_cases hdepth : depth steps = 0 <;> simp [hdepth]
        omega
    rw [faultless_append_singleton, noUnderflow_append_singleton, ih, hx, hcount]
    tauto

/-! ### What the builder keeps track of -/

section Step

variable (b : Builder) (slot : Slot)

/-- The kinds and texts of the slots so far. -/
def contents : List (Kind × Option String) :=
  b.slots.toList.map fun s => (s.kind, s.token.map (·.text))

@[simp] theorem openNodes_push : (b.push slot).openNodes = b.openNodes := by
  rw [push]
  split
  · rfl
  · split <;> rfl

@[simp] theorem pending_push : (b.push slot).pending = b.pending := by
  rw [push]
  split
  · rfl
  · split <;> rfl

theorem isSome_root_push :
    (b.push slot).root.isSome = true ↔ b.root.isSome = true ∨ b.openNodes = [] := by
  rw [push]
  split
  · rename_i hopen
    simp [hopen]
  · rename_i hopen
    rcases hroot : b.root with - | root <;> simp [hopen, fail]

theorem fault_push :
    (b.push slot).fault
      = (b.fault <|>
          if b.openNodes.isEmpty && b.root.isSome then some .multipleRoots else none) := by
  rw [push]
  split
  · rename_i hopen
    rcases b.fault with - | e <;> simp [hopen]
  · rename_i hopen
    rcases b.root with - | root <;> rcases b.fault with - | e <;> simp [hopen, fail]

theorem contents_push :
    (b.push slot).contents = b.contents ++ [(slot.kind, slot.token.map (·.text))] := by
  have hpush : (b.slots.push slot).toList.map (fun s => (s.kind, s.token.map (·.text)))
      = b.contents ++ [(slot.kind, slot.token.map (·.text))] := by
    rw [Array.toList_push, List.map_append]
    rfl
  rw [push]
  split
  · -- what is entered in the slot of the parent is neither its kind nor its text
    rw [← hpush, contents]
    apply List.ext_getElem
    · simp
    · intro i hi hi'
      simp only [List.getElem_map, Array.getElem_toList, Array.getElem_modify]
      split <;> rfl
  · split <;> exact hpush

/-- Why the builder cannot carry out a step. -/
def faultOf? : BuildStep → Option TreeError
  | .closeNode => if b.openNodes.isEmpty then some .unbalancedFinish else none
  | .openNode _ | .addToken _ _ =>
    if b.openNodes.isEmpty && b.root.isSome then some .multipleRoots else none
  | .queueTrivia _ => none

theorem fault_step (x : BuildStep) : (b.step x).fault = (b.fault <|> b.faultOf? x) := by
  cases x with
  | openNode kind => exact b.fault_push _
  | closeNode =>
    rcases hopen : b.openNodes with - | ⟨p, rest⟩ <;> rcases hfault : b.fault with - | e <;>
      simp [step, fail, faultOf?, hopen, hfault]
  | addToken kind text => exact b.fault_push _
  | queueTrivia text => rcases hfault : b.fault with - | e <;> simp [step, faultOf?, hfault]

end Step

/-- The builder is as the steps make it. -/
structure Follows (steps : List BuildStep) (b : Builder) : Prop where
  length_openNodes : b.openNodes.length = depth steps
  isSome_root_iff : b.root.isSome = true ↔ 0 < topLevel steps
  remembers : Remembers Faulty steps b.fault
  contents_eq : b.contents = steps.filterMap element?

namespace Follows

variable {steps : List BuildStep} {b : Builder}

theorem isEmpty_openNodes_iff (h : Follows steps b) :
    b.openNodes.isEmpty = true ↔ depth steps = 0 := by
  rw [List.isEmpty_iff_length_eq_zero, h.length_openNodes]

theorem faultOf?_eq_some_iff (h : Follows steps b) (x : BuildStep) (e : TreeError) :
    b.faultOf? x = some e ↔ Faulty steps x e := by
  have helement : ∀ x : BuildStep, x.isElement = true →
      ((if b.openNodes.isEmpty && b.root.isSome then some TreeError.multipleRoots else none)
        = some e ↔ Faulty steps x e) := by
    intro x hx
    have hcond : (b.openNodes.isEmpty && b.root.isSome) = true ↔
        depth steps = 0 ∧ 0 < topLevel steps := by
      rw [Bool.and_eq_true, h.isEmpty_openNodes_iff, h.isSome_root_iff]
    constructor
    · intro he
      split at he
      · rename_i hand
        obtain rfl := Option.some.inj he
        exact .multipleRoots hx (hcond.mp hand).1 (hcond.mp hand).2
      · cases he
    · rintro (- | ⟨-, hdepth, hpos⟩)
      · cases hx
      · rw [if_pos (hcond.mpr ⟨hdepth, hpos⟩)]
  cases x with
  | openNode kind => exact helement _ rfl
  | addToken kind text => exact helement _ rfl
  | closeNode =>
    rw [faultOf?]
    constructor
    · intro he
      split at he
      · rename_i hempty
        obtain rfl := Option.some.inj he
        exact .unbalancedFinish (h.isEmpty_openNodes_iff.mp hempty)
      · cases he
    · rintro (hdepth | ⟨hx, -, -⟩)
      · rw [if_pos (h.isEmpty_openNodes_iff.mpr hdepth)]
      · cases hx
  | queueTrivia text =>
    rw [faultOf?]
    constructor
    · intro he
      cases he
    · rintro (- | ⟨hx, -, -⟩)
      cases hx

/-- One step more. -/
theorem step (h : Follows steps b) (x : BuildStep) : Follows (steps ++ [x]) (b.step x) where
  length_openNodes := by
    rw [depth_append_singleton, ← h.length_openNodes]
    cases x with
    | openNode kind => rfl
    | closeNode =>
      rcases hopen : b.openNodes with - | ⟨p, rest⟩ <;>
        simp [Builder.step, hopen, fail, depthAfter]
    | addToken kind text => simp [Builder.step, depthAfter]
    | queueTrivia text => rfl
  isSome_root_iff := by
    have helement : ∀ slot, (b.push slot).root.isSome = true ↔
        0 < topLevel steps + if depth steps == 0 then 1 else 0 := by
      intro slot
      rw [isSome_root_push, h.isSome_root_iff, ← List.isEmpty_iff, h.isEmpty_openNodes_iff]
      by_cases hdepth : depth steps = 0 <;> simp [hdepth]
    rw [topLevel_append_singleton]
    cases x with
    | openNode kind => exact helement _
    | closeNode =>
      have hroot : (b.step .closeNode).root = b.root := by
        rw [Builder.step]
        split <;> rfl
      rw [hroot]
      exact h.isSome_root_iff
    | addToken kind text => exact helement _
    | queueTrivia text => exact h.isSome_root_iff
  remembers := by
    rw [fault_step]
    exact h.remembers.append_singleton (h.faultOf?_eq_some_iff x)
  contents_eq := by
    rw [List.filterMap_append, ← h.contents_eq]
    cases x with
    | openNode kind => exact b.contents_push _
    | closeNode =>
      have hslots : (b.step .closeNode).slots = b.slots := by
        rw [Builder.step]
        split <;> rfl
      rw [contents, hslots, contents]
      exact (List.append_nil _).symm
    | addToken kind text => exact b.contents_push _
    | queueTrivia text => exact (List.append_nil _).symm

end Follows

theorem follows_empty : Follows [] {} where
  length_openNodes := rfl
  isSome_root_iff := iff_of_false Bool.false_ne_true (Nat.lt_irrefl 0)
  remembers := remembers_nil
  contents_eq := rfl

/-- The builder is as the steps make it, at any time. -/
theorem follows_run (steps : List BuildStep) : Follows steps (({} : Builder).run steps) := by
  induction steps using List.reverseRecOn with
  | nil => exact follows_empty
  | append_singleton steps x ih =>
    rw [run_append]
    exact ih.step x

end Builder

/-! ### Sketches -/

/-- A build in progress, as shapes: what is finished at top level, the open nodes with the children
they have, innermost first, and the trivia that waits for a token. -/
structure Sketch where
  roots : List Shape := []
  opened : List (Kind × List Shape) := []
  waiting : String := ""

namespace Sketch

open BuildStep Shape

/-- Enters a finished shape as the last child of the innermost open node, or at top level. -/
def add (k : Sketch) (s : Shape) : Sketch :=
  match k.opened with
  | [] => { k with roots := k.roots ++ [s] }
  | (kind, ss) :: outer => { k with opened := (kind, ss ++ [s]) :: outer }

/-- One step.  Nothing happens when a node is closed that is not open. -/
def next (k : Sketch) : BuildStep → Sketch
  | .openNode kind => { k with opened := (kind, []) :: k.opened }
  | .closeNode =>
    match k.opened with
    | [] => k
    | (kind, ss) :: outer => { k with opened := outer }.add (.node kind ss)
  | .addToken kind text => { k.add (.token kind ⟨text, k.waiting⟩) with waiting := "" }
  | .queueTrivia text => { k with waiting := k.waiting ++ text }

/-- The sketch that steps make from nothing. -/
def ofSteps (steps : List BuildStep) : Sketch := steps.foldl next {}

/-- The sketch written out as steps, without the trivia that waits. -/
def steps (k : Sketch) : List BuildStep :=
  stepsAll k.roots ++ k.opened.reverse.flatMap fun o => .openNode o.1 :: stepsAll o.2

/-- What is finished, in document order. -/
def shapes (k : Sketch) : List Shape :=
  k.roots ++ k.opened.reverse.flatMap (·.2)

variable (k : Sketch) (s : Shape) (steps : List BuildStep) (x : BuildStep)

theorem steps_add : (k.add s).steps = k.steps ++ s.steps := by
  rw [add]
  split
  · rename_i hopened
    simp [Sketch.steps, hopened, stepsAll_append, stepsAll]
  · rename_i hopened
    simp [Sketch.steps, hopened, stepsAll_append, stepsAll]

theorem shapes_add : (k.add s).shapes = k.shapes ++ [s] := by
  rw [add]
  split
  · rename_i hopened
    simp [shapes, hopened]
  · rename_i hopened
    simp [shapes, hopened]

theorem length_opened_add : (k.add s).opened.length = k.opened.length := by
  rw [add]
  split
  · rfl
  · rename_i hopened
    simp [hopened]

theorem ofSteps_append_singleton : ofSteps (steps ++ [x]) = (ofSteps steps).next x := by
  rw [ofSteps, List.foldl_append]
  rfl

theorem length_opened_ofSteps : (ofSteps steps).opened.length = depth steps := by
  induction steps using List.reverseRecOn with
  | nil => rfl
  | append_singleton steps x ih =>
    rw [ofSteps_append_singleton, depth_append_singleton, ← ih]
    cases x with
    | openNode kind => rfl
    | closeNode =>
      rw [next]
      split
      · rename_i hopened
        rw [hopened]
        rfl
      · rename_i hopened
        rw [length_opened_add, hopened]
        rfl
    | addToken kind text => exact length_opened_add _ _
    | queueTrivia text => rfl

/-- A node counts at top level from when it is opened. -/
theorem topLevel_eq :
    topLevel steps
      = (ofSteps steps).roots.length + if (ofSteps steps).opened.isEmpty then 0 else 1 := by
  induction steps using List.reverseRecOn with
  | nil => rfl
  | append_singleton steps x ih =>
    rw [ofSteps_append_singleton, topLevel_append_singleton, ih, ← length_opened_ofSteps]
    rcases ofSteps steps with ⟨roots, opened, waiting⟩
    cases x with
    | openNode kind => rcases opened with - | ⟨o, outer⟩ <;> rfl
    | closeNode =>
      rcases opened with - | ⟨o, - | ⟨o', outer⟩⟩
      · rfl
      · simp [next, add, isElement, element?]
      · rfl
    | addToken kind text =>
      rcases opened with - | ⟨o, outer⟩
      · simp [next, add, isElement, element?]
      · rfl
    | queueTrivia text => rfl

/-- Steps do the same as the sketch they make, written out. -/
theorem run_steps {steps : List BuildStep} (h : NoUnderflow steps) :
    ({} : Builder).run steps
      = (({} : Builder).run (ofSteps steps).steps).step (.queueTrivia (ofSteps steps).waiting) := by
  induction steps using List.reverseRecOn with
  | nil => rfl
  | append_singleton steps x ih =>
    obtain ⟨hsteps, hclose⟩ := noUnderflow_append_singleton.mp h
    rw [Builder.run_append, ih hsteps, ofSteps_append_singleton]
    -- the next step comes after the trivia that waits, and has to be moved before it
    generalize hk : ofSteps steps = k
    show Builder.step _ x = _
    cases x with
    | openNode kind =>
      have hwritten : (k.next (.openNode kind)).steps = k.steps ++ [.openNode kind] := by
        simp [next, Sketch.steps, stepsAll]
      rw [Builder.step_queueTrivia_openNode, hwritten, Builder.run_append]
      rfl
    | closeNode =>
      have hdepth : 0 < k.opened.length := by
        rw [← hk, length_opened_ofSteps]
        exact hclose rfl
      rcases hopened : k.opened with - | ⟨⟨kind, ss⟩, outer⟩
      · rw [hopened] at hdepth
        exact absurd hdepth (Nat.lt_irrefl 0)
      · have hwritten : (k.next .closeNode).steps = k.steps ++ [.closeNode] := by
          rw [next, hopened]
          simp only
          rw [steps_add, Shape.steps]
          simp [Sketch.steps, hopened]
        have hwaiting : (k.next .closeNode).waiting = k.waiting := by
          rw [next, hopened]
          simp only [add]
          split <;> rfl
        rw [Builder.step_queueTrivia_closeNode, hwritten, hwaiting, Builder.run_append]
        rfl
    | addToken kind text =>
      -- the trivia that waits goes right before the token, and none is left
      have hwritten : (k.next (.addToken kind text)).steps
          = k.steps ++ [.queueTrivia k.waiting, .addToken kind text] := by
        show (k.add (.token kind ⟨text, k.waiting⟩)).steps = _
        rw [steps_add, Shape.steps]
      rw [hwritten, Builder.run_append, show (k.next (.addToken kind text)).waiting = "" from rfl,
        Builder.step_queueTrivia_empty]
      rfl
    | queueTrivia text =>
      exact (Builder.step_queueTrivia_append _ k.waiting text).symm

/-- The text of a sketch is what the steps brought, up to the last token; the rest waits. -/
theorem fullText_ofSteps :
    fullTextAll (ofSteps steps).shapes = textAll (steps.rdropWhile fun x => !x.isToken) ∧
    fullTextAll (ofSteps steps).shapes ++ (ofSteps steps).waiting = textAll steps := by
  induction steps using List.reverseRecOn with
  | nil => exact ⟨rfl, rfl⟩
  | append_singleton steps x ih =>
    obtain ⟨hlast, hall⟩ := ih
    rw [ofSteps_append_singleton, textAll_append_singleton, ← hall]
    generalize ofSteps steps = k at hlast hall
    have hother : x.isToken = false →
        fullTextAll k.shapes
          = textAll ((steps ++ [x]).rdropWhile fun x => !x.isToken) := by
      intro hx
      rw [List.rdropWhile_concat_pos _ _ _ (by rw [hx]; rfl), hlast]
    cases x with
    | openNode kind =>
      have hshapes : (k.next (.openNode kind)).shapes = k.shapes := by
        simp [next, shapes]
      rw [hshapes, BuildStep.text, String.append_empty]
      exact ⟨hother rfl, rfl⟩
    | closeNode =>
      have htext : fullTextAll (k.next .closeNode).shapes = fullTextAll k.shapes ∧
          (k.next .closeNode).waiting = k.waiting := by
        rw [next]
        split
        · exact ⟨rfl, rfl⟩
        · rename_i kind ss outer hopened
          refine ⟨?_, ?_⟩
          · rw [shapes_add, fullTextAll_append]
            simp [shapes, hopened, fullTextAll_append, fullTextAll, String.append_assoc]
          · rw [add]
            split <;> rfl
      rw [htext.1, htext.2, BuildStep.text, String.append_empty]
      exact ⟨hother rfl, rfl⟩
    | addToken kind text =>
      have htext : fullTextAll (k.next (.addToken kind text)).shapes
          = fullTextAll k.shapes ++ k.waiting ++ text := by
        show fullTextAll (k.add _).shapes = _
        rw [shapes_add, fullTextAll_append, fullTextAll, fullTextAll, fullText_token,
          String.append_empty, String.append_assoc]
      have hwaiting : (k.next (.addToken kind text)).waiting = "" := rfl
      rw [htext, hwaiting, String.append_empty, hall]
      refine ⟨?_, rfl⟩
      rw [List.rdropWhile_concat_neg _ _ _ (by simp [isToken]), textAll_append_singleton]
      rfl
    | queueTrivia text =>
      refine ⟨hother rfl, ?_⟩
      show fullTextAll k.shapes ++ (k.waiting ++ text) = _
      rw [String.append_assoc]
      rfl

end Sketch

/-! ### Whole builds -/

namespace Tree

open BuildStep Shape

/-- The tree is what the steps describe. -/
structure Built (steps : List BuildStep) (t : Tree) : Prop where
  /-- There is a slot for each step that makes an element, in the order of the steps. -/
  contents_eq : (t.slots.toList.map fun s => (s.kind, s.token.map (·.text)))
    = steps.filterMap BuildStep.element?
  /-- The first element is the root. -/
  root_eq : t.root = 0
  /-- The slots are numbered in document order. -/
  ids_eq : t.top.preorder.map Element.id = List.range t.size
  /-- The root reaches every slot. -/
  reachable_iff : ∀ id, t.Reachable id ↔ id < t.size
  /-- The text is what the steps bring up to the last token. -/
  text_eq : t.text = textAll (steps.rdropWhile fun x => !x.isToken)

variable {steps : List BuildStep}

/-- Once everything is closed and there is one element at top level, there is a tree. -/
theorem exists_ofSteps_eq_ok (h : NoUnderflow steps) (hdepth : depth steps = 0)
    (htop : topLevel steps = 1) : ∃ t, ofSteps steps = .ok t ∧ Built steps t := by
  -- nothing is open, so the sketch is one shape
  have hopened : (Sketch.ofSteps steps).opened = [] := by
    rw [← List.length_eq_zero_iff, Sketch.length_opened_ofSteps, hdepth]
  obtain ⟨s, hroots⟩ : ∃ s, (Sketch.ofSteps steps).roots = [s] := by
    rw [Sketch.topLevel_eq, hopened] at htop
    exact List.length_eq_one_iff.mp htop
  have hwritten : (Sketch.ofSteps steps).steps = s.steps := by
    rw [Sketch.steps, hroots, hopened, stepsAll, stepsAll, List.append_nil]
    exact List.append_nil _
  have hshapes : (Sketch.ofSteps steps).shapes = [s] := by
    rw [Sketch.shapes, hroots, hopened]
    rfl
  -- so the builder ends up with the table of that shape
  have hrun := Sketch.run_steps h
  rw [hwritten, Builder.run_empty_steps] at hrun
  obtain ⟨t, ht, hslots, hshape⟩ := exists_ofSlots_table s
  have hroot : t.root = 0 := (slots_of_ofSlots ht).2
  have hids : t.top.preorder.map Element.id = List.range t.size := by
    have hwalk := (fits_number hslots).walk .done
    rw [List.append_nil, id_number, ids_number, ← List.range_eq_range'] at hwalk
    have hsize : t.size = s.size := by rw [size, hslots, size_table]
    rw [hsize]
    exact (hroot ▸ t.walk_root).unique hwalk
  refine ⟨t, ?_, ?_, hroot, hids, ?_, ?_⟩
  · rw [ofSteps, hrun]
    exact ht
  · have hcontents := (Builder.follows_run steps).contents_eq
    rw [hrun] at hcontents
    rw [hslots]
    exact hcontents
  · intro id
    rw [← t.isTree.mem_iff, hids, List.mem_range]
  · rw [← (Sketch.fullText_ofSteps steps).1, hshapes, fullTextAll, fullTextAll,
      String.append_empty, ← hshape, Element.fullText_shape]
    rfl

/-- Why steps do not build a tree: the first fault, or what is left open, or that there is
nothing. -/
theorem ofSteps_eq_error_iff {e : TreeError} :
    ofSteps steps = .error e ↔
      FirstFault Builder.Faulty steps e ∨
        Faultless Builder.Faulty steps ∧
          (0 < depth steps ∧ e = .unclosed (depth steps) ∨
            depth steps = 0 ∧ topLevel steps = 0 ∧ e = .empty) := by
  have hfollows := Builder.follows_run steps
  rcases hfault : (({} : Builder).run steps).fault with - | first
  · -- no step has failed, so what is open and what there is at top level decides
    have hfaultless := hfollows.remembers.none_iff.mp hfault
    have hnone : ¬ FirstFault Builder.Faulty steps e := fun he => he.not_faultless hfaultless
    obtain ⟨hunderflow, hle⟩ := Builder.faultless_iff.mp hfaultless
    rw [or_iff_right hnone, and_iff_right hfaultless]
    by_cases hdepth : depth steps = 0
    · have hempty := hfollows.isEmpty_openNodes_iff.mpr hdepth
      rw [or_iff_right fun hopen => Nat.ne_of_gt hopen.1 hdepth, and_iff_right hdepth]
      by_cases htop : topLevel steps = 0
      · have hroot : (({} : Builder).run steps).root = none := by
          rw [← Option.not_isSome_iff_eq_none, hfollows.isSome_root_iff, htop]
          exact Nat.lt_irrefl 0
        rw [and_iff_right htop, ofSteps, Builder.finish, hfault]
        simp only [hempty, hroot, if_true, Except.error.injEq]
        exact eq_comm
      · obtain ⟨t, ht, -⟩ := exists_ofSteps_eq_ok hunderflow hdepth
          (Nat.le_antisymm hle (Nat.pos_of_ne_zero htop))
        rw [ht]
        exact iff_of_false (fun h => by cases h) fun h => htop h.1
    · have hopen : (({} : Builder).run steps).openNodes.isEmpty = false := by
        rw [← Bool.not_eq_true, hfollows.isEmpty_openNodes_iff]
        exact hdepth
      rw [or_iff_left fun hclosed => hdepth hclosed.1, and_iff_right (Nat.pos_of_ne_zero hdepth),
        ofSteps, Builder.finish, hfault]
      simp only [hopen, Bool.false_eq_true, if_false, hfollows.length_openNodes,
        Except.error.injEq]
      exact eq_comm
  · have hfirst := (hfollows.remembers.some_iff first).mp hfault
    rw [or_iff_left fun h => hfirst.not_faultless h.1, ← hfollows.remembers.some_iff, hfault,
      ofSteps, Builder.finish, hfault]
    simp only [Except.error.injEq, Option.some.injEq]

/-- **Building.**  Steps build a tree exactly when nothing is closed that is not open, everything
is closed in the end, and there is one element at top level.  The tree is then what the steps
describe; otherwise the first fault is the error, or else the number of nodes left open, or else
that there is nothing.  No error comes from the check of the table.  The steps are meant to make
fewer than `2 ^ 32` elements, as numbers of slots have 32 bits. -/
theorem ofSteps_built (steps : List BuildStep) :
    ((∃ t, ofSteps steps = .ok t) ↔
      NoUnderflow steps ∧ depth steps = 0 ∧ topLevel steps = 1) ∧
    (∀ e, ofSteps steps = .error e ↔
      FirstFault Builder.Faulty steps e ∨
        Faultless Builder.Faulty steps ∧
          (0 < depth steps ∧ e = .unclosed (depth steps) ∨
            depth steps = 0 ∧ topLevel steps = 0 ∧ e = .empty)) ∧
    ∀ t, ofSteps steps = .ok t → Built steps t := by
  have hok : (∃ t, ofSteps steps = .ok t) →
      NoUnderflow steps ∧ depth steps = 0 ∧ topLevel steps = 1 := by
    rintro ⟨t, ht⟩
    have hne : ∀ e, ofSteps steps ≠ .error e := fun e he => by cases ht.symm.trans he
    have hfaultless : Faultless Builder.Faulty steps := by
      have hremembers := (Builder.follows_run steps).remembers
      rw [← hremembers.none_iff, Option.eq_none_iff_forall_ne_some]
      intro e he
      exact hne e (ofSteps_eq_error_iff.mpr (.inl ((hremembers.some_iff e).mp he)))
    obtain ⟨hunderflow, hle⟩ := Builder.faultless_iff.mp hfaultless
    have hdepth : depth steps = 0 := by
      by_contra hdepth
      exact hne _ (ofSteps_eq_error_iff.mpr
        (.inr ⟨hfaultless, .inl ⟨Nat.pos_of_ne_zero hdepth, rfl⟩⟩))
    have htop : topLevel steps ≠ 0 := fun htop =>
      hne _ (ofSteps_eq_error_iff.mpr (.inr ⟨hfaultless, .inr ⟨hdepth, htop, rfl⟩⟩))
    exact ⟨hunderflow, hdepth, Nat.le_antisymm hle (Nat.pos_of_ne_zero htop)⟩
  refine ⟨⟨hok, ?_⟩, fun e => ofSteps_eq_error_iff, ?_⟩
  · rintro ⟨hunderflow, hdepth, htop⟩
    obtain ⟨t, ht, -⟩ := exists_ofSteps_eq_ok hunderflow hdepth htop
    exact ⟨t, ht⟩
  · intro t ht
    obtain ⟨hunderflow, hdepth, htop⟩ := hok ⟨t, ht⟩
    obtain ⟨t', ht', hbuilt⟩ := exists_ofSteps_eq_ok hunderflow hdepth htop
    obtain rfl := Except.ok.inj (ht.symm.trans ht')
    exact hbuilt

/-- A block with a statement, with trivia queued before a node is opened, before one is closed, and
after the last token. -/
def looseTrivia : List BuildStep :=
  [.queueTrivia "// stop\n", .openNode .block, .openNode .breakStatement,
    .addToken .breakKeyword "break", .queueTrivia " ", .closeNode, .addToken .semicolonToken ";",
    .closeNode, .queueTrivia "\n"]

theorem ofSteps_built_looseTrivia :
    ∃ t, ofSteps looseTrivia = .ok t ∧ Built looseTrivia t ∧ t.text = "// stop\nbreak ;" := by
  obtain ⟨hok, -, hbuilt⟩ := ofSteps_built looseTrivia
  obtain ⟨t, ht⟩ := hok.mpr ⟨by decide, by decide, by decide⟩
  exact ⟨t, ht, hbuilt t ht, by rw [(hbuilt t ht).text_eq]; decide⟩

end Tree

end TreeLint
