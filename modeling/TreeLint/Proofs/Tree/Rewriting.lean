/-
TreeLint/Proofs/Tree/Rewriting.lean

Carrying out edits is structural substitution.

A *revision* says what becomes of the elements of a tree, by number: which
shape replaces an element, and which shapes are inserted into it, each before
a child.  `Revision.revise` carries a revision out by recursion on the element.
The loop over tasks builds the revised shape (`Edits.copy_source`): on a task
for an element it does what the steps of the revised shape do, and leaves the
rest of the stack and the waiting trivia as they were.  Only a replacement in
progress has trivia waiting, and its first token takes it
(`Edits.copy_verbatim`).

What edits mean is said in terms of the calls that made them
(`Revision.ofCalls`): the last replacement of an element counts, and fragments
are inserted in the order of the calls.
-/
import TreeLint.Proofs.Tree.Building
import TreeLint.Tree.Edits

namespace TreeLint

/-! ### Revisions -/

/-- What becomes of the elements of a tree: what replaces an element, and what is inserted into it,
with the number of the child it is to stand before. -/
structure Revision where
  replacement? : NodeId → Option Shape := fun _ => none
  insertions : NodeId → List (Nat × Shape) := fun _ => []

namespace Revision

/-- What is inserted into an element at the indices that satisfy `p`. -/
def fragments (r : Revision) (id : NodeId) (p : Nat → Bool) : List Shape :=
  ((r.insertions id).filter fun i => p i.1).map (·.2)

mutual

/-- What becomes of an element.  A replacement takes over the trivia of the element. -/
def revise (r : Revision) : Element → Shape
  | .token l t =>
    match r.replacement? l.id with
    | some s => s.withTrivia t.trivia
    | none => .token l.kind t
  | .node l cs =>
    match r.replacement? l.id with
    | some s => s.withTrivia (Element.node l cs).leadingTrivia
    | none => .node l.kind (reviseAll r l.id 0 cs)

/-- What becomes of the children of `parent` from number `index` on, with what is inserted
there. -/
def reviseAll (r : Revision) (parent : NodeId) : (index : Nat) → List Element → List Shape
  | index, [] => r.fragments parent (index ≤ ·)
  | index, c :: cs =>
    r.fragments parent (· == index) ++ revise r c :: reviseAll r parent (index + 1) cs

end

theorem revise_of_replacement? {r : Revision} {e : Element} {s : Shape}
    (h : r.replacement? e.id = some s) : r.revise e = s.withTrivia e.leadingTrivia := by
  cases e with
  | token l t =>
    rw [revise, show r.replacement? l.id = some s from h, Element.leadingTrivia_eq,
      Element.leadingToken?_token]
    rfl
  | node l cs => rw [revise, show r.replacement? l.id = some s from h]

theorem revise_token {r : Revision} {l : Label} {t : Token} (h : r.replacement? l.id = none) :
    r.revise (.token l t) = .token l.kind t := by
  rw [revise, h]

theorem revise_node {r : Revision} {l : Label} {cs : List Element}
    (h : r.replacement? l.id = none) :
    r.revise (.node l cs) = .node l.kind (r.reviseAll l.id 0 cs) := by
  rw [revise, h]

/-- The two revisions say the same of an element. -/
def Agree (r r' : Revision) (id : NodeId) : Prop :=
  r.replacement? id = r'.replacement? id ∧ r.insertions id = r'.insertions id

theorem Agree.fragments_eq {r r' : Revision} {id : NodeId} (h : Agree r r' id) (p : Nat → Bool) :
    r.fragments id p = r'.fragments id p := by
  rw [fragments, fragments, h.2]

theorem reviseAll_congr {r r' : Revision} {parent : NodeId} (hparent : Agree r r' parent)
    {cs : List Element} (hcs : ∀ c ∈ cs, r.revise c = r'.revise c) (index : Nat) :
    r.reviseAll parent index cs = r'.reviseAll parent index cs := by
  induction cs generalizing index with
  | nil => rw [reviseAll, reviseAll, hparent.fragments_eq]
  | cons c cs ih =>
    rw [reviseAll, reviseAll, hparent.fragments_eq, hcs c List.mem_cons_self,
      ih fun d hd => hcs d (List.mem_cons_of_mem c hd)]

/-- What becomes of an element depends only on what a revision says of the elements in it. -/
theorem revise_congr {r r' : Revision} {e : Element}
    (h : ∀ x, Element.Below e x → Agree r r' x.id) : r.revise e = r'.revise e := by
  induction e using Element.induction with
  | token l t =>
    have hl : Agree r r' l.id := h _ (.refl _)
    rw [revise, revise, hl.1]
  | node l cs ih =>
    have hl : Agree r r' l.id := h _ (.refl _)
    have hcs : r.reviseAll l.id 0 cs = r'.reviseAll l.id 0 cs :=
      reviseAll_congr hl (fun c hc => ih c hc fun x hx => h x (.child hc hx)) 0
    rw [revise, revise, hl.1, hcs]

/-- Where a revision says nothing, nothing changes. -/
theorem revise_empty (e : Element) : ({} : Revision).revise e = e.shape := by
  induction e using Element.induction with
  | token l t => rw [revise_token rfl, Element.shape_token]
  | node l cs ih =>
    have hcs : ∀ index, ({} : Revision).reviseAll l.id index cs = cs.map Element.shape := by
      intro index
      induction cs generalizing index with
      | nil => rfl
      | cons c cs ihcs =>
        rw [reviseAll, ih c List.mem_cons_self, ihcs fun d hd => ih d (List.mem_cons_of_mem c hd)]
        rfl
    rw [revise_node rfl, hcs, Element.shape_node]

end Revision

/-- What the edits make of the elements of a tree. -/
def Edits.revision (edits : Edits) : Revision where
  replacement? id := (edits.replacement? id).map (·.top.shape)
  insertions id :=
    (edits.insertions.filter (·.parent == id)).map fun i => (i.index, i.fragment.top.shape)

theorem Edits.replacement?_revision (edits : Edits) (id : NodeId) :
    edits.revision.replacement? id = (edits.replacement? id).map (·.top.shape) := rfl

theorem Edits.fragments_revision (edits : Edits) (id : NodeId) (p : Nat → Bool) :
    edits.revision.fragments id p = (edits.fragments id p).map (·.top.shape) := by
  rw [Revision.fragments, revision, fragments, List.filter_map, List.map_map, List.filter_filter,
    List.map_map]
  congr 1
  exact List.filter_congr fun i _ => Bool.and_comm _ _

/-! ### The loop builds the revised shape -/

theorem Builder.run_steps_node (b : Builder) (k : Kind) (ss : List Shape) :
    b.run (Shape.node k ss).steps
      = ((b.run [.openNode k]).run (Shape.stepsAll ss)).run [.closeNode] := by
  rw [Shape.steps, ← List.singleton_append, run_append, run_append]

namespace Shape

/-- The shape with the trivia that waits for its first token. -/
def inherit : (waiting : Option String) → Shape → Shape
  | none, s => s
  | some trivia, s => s.withTrivia trivia

/-- Several shapes with the trivia that waits for their first token. -/
def inheritIn : (waiting : Option String) → List Shape → List Shape
  | none, ss => ss
  | some trivia, ss => withTriviaIn trivia ss

/-- The trivia that still waits after a shape: a first token takes it. -/
def stillWaiting (waiting : Option String) (s : Shape) : Option String :=
  if s.hasToken then none else waiting

theorem inheritIn_cons (waiting : Option String) (s : Shape) (ss : List Shape) :
    inheritIn waiting (s :: ss) = s.inherit waiting :: inheritIn (s.stillWaiting waiting) ss := by
  cases waiting with
  | none =>
    rw [stillWaiting, ite_self]
    rfl
  | some trivia =>
    rw [inheritIn, withTriviaIn, stillWaiting, inherit]
    split
    · rfl
    · rename_i h
      rw [withTrivia_of_not_hasToken trivia (eq_false_of_ne_true h)]
      rfl

theorem inherit_node (waiting : Option String) (k : Kind) (ss : List Shape) :
    (node k ss).inherit waiting = node k (inheritIn waiting ss) := by
  cases waiting with
  | none => rfl
  | some trivia => rw [inherit, withTrivia, inheritIn]

end Shape

namespace Edits

open Shape

variable (edits : Edits)

theorem copy_cons (waiting : Option String) (b : Builder) (task : CopyTask)
    (rest : List CopyTask) :
    edits.copy waiting b (task :: rest)
      = edits.copy (edits.advance waiting task).waiting (b.run (edits.advance waiting task).steps)
          ((edits.advance waiting task).tasks ++ rest) := by
  rw [copy]

theorem copy_closeNode (waiting : Option String) (b : Builder) (rest : List CopyTask) :
    edits.copy waiting b (.closeNode :: rest)
      = edits.copy waiting (b.run [.closeNode]) rest := by
  rw [copy_cons]
  rfl

/-- Copying several elements as they are does what the steps of their shapes do. -/
theorem copy_verbatims_of_forall (cs : List Element)
    (ih : ∀ c ∈ cs, ∀ waiting b rest, edits.copy waiting b (.verbatim c :: rest)
      = edits.copy (c.shape.stillWaiting waiting) (b.run (c.shape.inherit waiting).steps) rest)
    (waiting : Option String) (b : Builder) (rest : List CopyTask) :
    edits.copy waiting b (cs.map .verbatim ++ rest)
      = edits.copy (if (cs.map Element.shape).any hasToken then none else waiting)
          (b.run (stepsAll (inheritIn waiting (cs.map Element.shape)))) rest := by
  induction cs generalizing waiting b with
  | nil => cases waiting <;> rfl
  | cons c cs ihcs =>
    rw [List.map_cons, List.cons_append, ih c List.mem_cons_self,
      ihcs fun d hd => ih d (List.mem_cons_of_mem c hd)]
    rw [List.map_cons, inheritIn_cons, stepsAll, Builder.run_append, List.any_cons]
    congr 1
    rw [stillWaiting]
    cases c.shape.hasToken <;> simp

/-- Copying an element as it is does what the steps of its shape do; its first token takes the
trivia that waits. -/
theorem copy_verbatim (e : Element) (waiting : Option String) (b : Builder)
    (rest : List CopyTask) :
    edits.copy waiting b (.verbatim e :: rest)
      = edits.copy (e.shape.stillWaiting waiting) (b.run (e.shape.inherit waiting).steps) rest := by
  induction e using Element.induction generalizing waiting b rest with
  | token l t =>
    rw [copy_cons, Element.shape_token, stillWaiting, hasToken_token]
    cases waiting with
    | none => rw [inherit, steps]; rfl
    | some trivia => rw [inherit, withTrivia, steps]; rfl
  | node l cs ih =>
    rw [copy_cons]
    show edits.copy waiting (b.run [.openNode l.kind]) (cs.map .verbatim ++ [.closeNode] ++ rest) = _
    rw [List.append_assoc, edits.copy_verbatims_of_forall cs ih, List.singleton_append,
      copy_closeNode, Element.shape_node, inherit_node, stillWaiting, hasToken_node,
      Builder.run_steps_node]

theorem copy_fragments (fragments : List Tree) (b : Builder) (rest : List CopyTask) :
    edits.copy none b (fragments.map (.verbatim ·.top) ++ rest)
      = edits.copy none (b.run (stepsAll (fragments.map (·.top.shape)))) rest := by
  have h := edits.copy_verbatims_of_forall (fragments.map (·.top))
    (fun c _ => edits.copy_verbatim c) none b rest
  rw [List.map_map, List.map_map, ite_self] at h
  exact h

/-- Copying the children of a node under the edits does what the steps of the revised children
do. -/
theorem copy_childTasks_of_forall {cs : List Element}
    (ih : ∀ c ∈ cs, ∀ b rest, edits.copy none b (.source c :: rest)
      = edits.copy none (b.run (edits.revision.revise c).steps) rest)
    (parent : NodeId) (index : Nat) (b : Builder) (rest : List CopyTask) :
    edits.copy none b (edits.childTasks parent index cs ++ rest)
      = edits.copy none (b.run (stepsAll (edits.revision.reviseAll parent index cs))) rest := by
  induction cs generalizing index b with
  | nil => rw [childTasks, copy_fragments, Revision.reviseAll, fragments_revision]
  | cons c cs ihcs =>
    rw [childTasks, List.append_assoc, copy_fragments, List.cons_append, ih c List.mem_cons_self,
      ihcs fun d hd => ih d (List.mem_cons_of_mem c hd)]
    rw [Revision.reviseAll, fragments_revision, stepsAll_append, stepsAll, Builder.run_append,
      Builder.run_append]

theorem advance_replaced {e : Element} {r : Tree} (h : edits.replacement? e.id = some r) :
    edits.advance none (.source e)
      = { tasks := [.verbatim r.top, .endReplacement], waiting := some e.leadingTrivia } := by
  cases e <;> simp only [advance, h]

theorem advance_token {l : Label} {t : Token} (h : edits.replacement? l.id = none) :
    edits.advance none (.source (.token l t))
      = { steps := [.queueTrivia t.trivia, .addToken l.kind t.text] } := by
  simp only [advance, Element.id_token, h]

theorem advance_node {l : Label} {cs : List Element} (h : edits.replacement? l.id = none) :
    edits.advance none (.source (.node l cs))
      = { tasks := edits.childTasks l.id 0 cs ++ [.closeNode], steps := [.openNode l.kind] } := by
  simp only [advance, Element.id_node, h]

/-- Copying an element that has a replacement does what the steps of the replacement do, with the
trivia of the element before its first token. -/
theorem copy_replaced {e : Element} {r : Tree} (h : edits.replacement? e.id = some r)
    (b : Builder) (rest : List CopyTask) :
    edits.copy none b (.source e :: rest)
      = edits.copy none (b.run (edits.revision.revise e).steps) rest := by
  have hsome : edits.revision.replacement? e.id = some r.top.shape := by
    rw [replacement?_revision, h, Option.map_some]
  rw [copy_cons, edits.advance_replaced h, Revision.revise_of_replacement? hsome]
  show edits.copy (some e.leadingTrivia) b (.verbatim r.top :: .endReplacement :: rest) = _
  -- whatever still waits after the replacement is dropped at its end
  rw [copy_verbatim, copy_cons]
  rfl

/-- Copying an element under the edits does what the steps of the revised element do. -/
theorem copy_source (e : Element) (b : Builder) (rest : List CopyTask) :
    edits.copy none b (.source e :: rest)
      = edits.copy none (b.run (edits.revision.revise e).steps) rest := by
  induction e using Element.induction generalizing b rest with
  | token l t =>
    rcases h : edits.replacement? l.id with - | r
    · have hnone : edits.revision.replacement? l.id = none := by
        rw [replacement?_revision, h, Option.map_none]
      rw [copy_cons, edits.advance_token h, Revision.revise_token hnone, steps]
      rfl
    · exact edits.copy_replaced (e := .token l t) h b rest
  | node l cs ih =>
    rcases h : edits.replacement? l.id with - | r
    · have hnone : edits.revision.replacement? l.id = none := by
        rw [replacement?_revision, h, Option.map_none]
      rw [copy_cons, edits.advance_node h, List.append_assoc, edits.copy_childTasks_of_forall ih,
        List.singleton_append, copy_closeNode, Revision.revise_node hnone, Builder.run_steps_node]
    · exact edits.copy_replaced (e := .node l cs) h b rest

end Edits

/-- Edits of slots that exist give a tree, which has the revised shape. -/
theorem Tree.exists_edit_eq_ok (t : Tree) {edits : Edits}
    (h : ∀ id ∈ edits.targets, id < t.size) :
    ∃ t', t.edit edits = .ok t' ∧ t'.top.shape = edits.revision.revise t.top := by
  obtain ⟨t', ht', hshape⟩ := exists_ofSteps_steps (edits.revision.revise t.top)
  refine ⟨t', ?_, hshape⟩
  have hfind : edits.targets.find? (t.size ≤ ·) = none := by
    rw [List.find?_eq_none]
    intro id hid
    simpa using h id hid
  rw [edit, hfind]
  show (edits.copy none {} [.source t.top]).finish = _
  rw [Edits.copy_source, Edits.copy, ← ht', ofSteps]

/-! ### Calls -/

/-- One edit, as it is asked for. -/
inductive EditCall where
  | replace (target : NodeId) (replacement : Tree)
  | insert (parent : NodeId) (index : Nat) (fragment : Tree)

namespace EditCall

/-- The slot that a call refers to. -/
def target : EditCall → NodeId
  | replace target _ => target
  | insert parent _ _ => parent

/-- What the call puts in the place of an element. -/
def replacementOf? (id : NodeId) : EditCall → Option Shape
  | replace target r => if target = id then some r.top.shape else none
  | insert _ _ _ => none

/-- What the call inserts into an element, with the number of the child it is to stand before. -/
def insertionInto? (id : NodeId) : EditCall → Option (Nat × Shape)
  | replace _ _ => none
  | insert parent index f => if parent = id then some (index, f.top.shape) else none

end EditCall

/-- The edits after one more call. -/
def Edits.call (edits : Edits) : EditCall → Edits
  | .replace target r => edits.replace target r
  | .insert parent index f => edits.insert parent index f

/-- The edits that calls collect. -/
def Edits.ofCalls (calls : List EditCall) : Edits := calls.foldl call {}

/-- What calls mean: the last replacement of an element counts, and fragments are inserted in the
order of the calls. -/
def Revision.ofCalls (calls : List EditCall) : Revision where
  replacement? id := (calls.filterMap (·.replacementOf? id)).getLast?
  insertions id := calls.filterMap (·.insertionInto? id)

namespace Edits

theorem replacement?_replace (edits : Edits) (target id : NodeId) (r : Tree) :
    (edits.replace target r).replacement? id
      = if target = id then some r else edits.replacement? id := by
  rw [replacement?, replace, List.reverse_append, List.reverse_singleton, List.singleton_append]
  by_cases h : target = id
  · rw [if_pos h, List.find?_cons_of_pos (by simpa using h), Option.map_some]
  · rw [if_neg h, List.find?_cons_of_neg (by simpa using h), replacement?]

theorem replacement?_revision_call (edits : Edits) (c : EditCall) (id : NodeId) :
    (edits.call c).revision.replacement? id
      = (c.replacementOf? id).or (edits.revision.replacement? id) := by
  cases c with
  | replace target r =>
    rw [replacement?_revision, call, replacement?_replace, EditCall.replacementOf?]
    split <;> rfl
  | insert parent index f => rfl

theorem insertions_revision_call (edits : Edits) (c : EditCall) (id : NodeId) :
    (edits.call c).revision.insertions id
      = edits.revision.insertions id ++ (c.insertionInto? id).toList := by
  cases c with
  | replace target r => exact (List.append_nil _).symm
  | insert parent index f =>
    simp only [call, insert, revision, EditCall.insertionInto?, List.filter_append, List.map_append]
    by_cases h : parent = id <;> simp [h]

theorem ofCalls_append_singleton (calls : List EditCall) (c : EditCall) :
    ofCalls (calls ++ [c]) = (ofCalls calls).call c := by
  rw [ofCalls, List.foldl_append]
  rfl

/-- The edits that calls collect make of a tree what the calls mean. -/
theorem revision_ofCalls (calls : List EditCall) :
    (ofCalls calls).revision = Revision.ofCalls calls := by
  rw [Revision.mk.injEq, funext_iff, funext_iff]
  induction calls using List.reverseRecOn with
  | nil => exact ⟨fun _ => rfl, fun _ => rfl⟩
  | append_singleton calls c ih =>
    rw [ofCalls_append_singleton]
    constructor
    · intro id
      rw [replacement?_revision_call, ih.1]
      simp only [Revision.ofCalls, List.filterMap_append, List.getLast?_append]
      cases h : c.replacementOf? id <;> simp [h]
    · intro id
      rw [insertions_revision_call, ih.2]
      simp only [Revision.ofCalls, List.filterMap_append]
      cases h : c.insertionInto? id <;> simp [h]

theorem mem_targets_ofCalls {calls : List EditCall} {id : NodeId}
    (h : id ∈ (ofCalls calls).targets) : ∃ c ∈ calls, c.target = id := by
  induction calls using List.reverseRecOn with
  | nil => cases h
  | append_singleton calls c ih =>
    rw [ofCalls_append_singleton] at h
    have hor : id ∈ (ofCalls calls).targets ∨ id = c.target := by
      rw [targets, List.mem_append] at h ⊢
      cases c with
      | replace target r =>
        rw [call, replace, List.map_append, List.mem_append, List.map_singleton,
          List.mem_singleton] at h
        exact or_right_comm.mp h
      | insert parent index f =>
        rw [call, insert, List.map_append, List.mem_append, List.map_singleton,
          List.mem_singleton, ← or_assoc] at h
        exact h
    rcases hor with h | rfl
    · obtain ⟨d, hd, hid⟩ := ih h
      exact ⟨d, List.mem_append_left _ hd, hid⟩
    · exact ⟨c, List.mem_append_right _ List.mem_cons_self, rfl⟩

end Edits

/-! ### The result -/

/-- A call on another slot says nothing of an element. -/
theorem Revision.agree_ofCalls_of_target_ne {pre post : List EditCall} {c : EditCall} {id : NodeId}
    (h : c.target ≠ id) :
    Agree (Revision.ofCalls (pre ++ post)) (Revision.ofCalls (pre ++ c :: post)) id := by
  have hr : c.replacementOf? id = none := by
    cases c with
    | replace target r => exact if_neg h
    | insert parent index f => rfl
  have hi : c.insertionInto? id = none := by
    cases c with
    | replace target r => rfl
    | insert parent index f => exact if_neg h
  constructor
  · simp only [ofCalls, List.filterMap_append, List.filterMap_cons_none hr]
  · simp only [ofCalls, List.filterMap_append, List.filterMap_cons_none hi]

namespace Tree

/-- **Rewriting is structural substitution.**  Calls that refer to slots of the tree give a tree,
whose shape is the revised one.  A call on a slot that the root does not reach has no effect, and
without calls neither the shape nor the text changes.  Both trees are meant to have at most `2 ^ 32`
slots, as numbers of slots have 32 bits. -/
theorem edit_eq_revise (t : Tree) (calls : List EditCall) (h : ∀ c ∈ calls, c.target < t.size) :
    ∃ t', t.edit (Edits.ofCalls calls) = .ok t' ∧
      t'.top.shape = (Revision.ofCalls calls).revise t.top ∧
      t'.text = ((Revision.ofCalls calls).revise t.top).fullText ∧
      (∀ pre c post, calls = pre ++ c :: post → ¬ t.Reachable c.target →
        ∃ t'', t.edit (Edits.ofCalls (pre ++ post)) = .ok t'' ∧ t''.top.shape = t'.top.shape) ∧
      (calls = [] → t'.top.shape = t.top.shape ∧ t'.text = t.text) := by
  have hedit : ∀ calls, (∀ c ∈ calls, c.target < t.size) → ∃ t',
      t.edit (Edits.ofCalls calls) = .ok t' ∧
        t'.top.shape = (Revision.ofCalls calls).revise t.top := by
    intro calls h
    rw [← Edits.revision_ofCalls]
    apply exists_edit_eq_ok
    intro id hid
    obtain ⟨c, hc, rfl⟩ := Edits.mem_targets_ofCalls hid
    exact h c hc
  obtain ⟨t', ht', hshape⟩ := hedit calls h
  have htext : t'.text = ((Revision.ofCalls calls).revise t.top).fullText := by
    rw [text, ← Element.fullText_shape, hshape]
  refine ⟨t', ht', hshape, htext, ?_, ?_⟩
  · rintro pre c post rfl hc
    obtain ⟨t'', ht'', hshape''⟩ := hedit (pre ++ post) fun d hd => h d (by
      rw [List.mem_append] at hd ⊢
      exact hd.imp_right (List.mem_cons_of_mem c))
    refine ⟨t'', ht'', ?_⟩
    rw [hshape'', hshape]
    apply Revision.revise_congr
    intro x hx
    apply Revision.agree_ofCalls_of_target_ne
    rintro hid
    exact hc (reachable_iff.mpr ⟨x, hx, hid.symm⟩)
  · rintro rfl
    have hnone : (Revision.ofCalls []).revise t.top = t.top.shape := Revision.revise_empty t.top
    rw [hshape, htext, hnone, Element.fullText_shape]
    exact ⟨rfl, rfl⟩

/-- A tree that is one token. -/
def ofToken (kind : Kind) (token : Token) : Tree :=
  ⟨#[⟨kind, [], some token⟩], 0, #[none], _, rfl, rfl⟩

/-- The statement ` x;` in a block, with a slot that the root does not reach. -/
def statement : Tree :=
  ⟨#[⟨.block, [1, 2], none⟩, ⟨.identifierName, [3], none⟩, ⟨.semicolonToken, [], some ⟨";", ""⟩⟩,
      ⟨.identifierToken, [], some ⟨"x", " "⟩⟩, ⟨.block, [], none⟩],
    0, #[none, some 0, some 0, some 1, none], _, rfl, rfl⟩

/-- A name replaced twice, with an edit below it, one past the last child, and one on a slot that
the root does not reach. -/
def renameCalls : List EditCall :=
  [.replace 1 (ofToken .identifierToken ⟨"y", "\n"⟩), .insert 3 0 statement,
    .insert 0 7 (ofToken .closeBraceToken ⟨"\x7d", ""⟩),
    .replace 1 (ofToken .identifierToken ⟨"z", "\n"⟩), .insert 0 1 (ofToken .dotToken ⟨".", ""⟩),
    .replace 4 statement]

theorem edit_eq_revise_statement :
    (∀ c ∈ renameCalls, c.target < statement.size) ∧
      ∃ t', statement.edit (Edits.ofCalls renameCalls) = .ok t' ∧
        t'.top.shape = .node .block [.token .identifierToken ⟨"z", " "⟩, .token .dotToken ⟨".", ""⟩,
          .token .semicolonToken ⟨";", ""⟩, .token .closeBraceToken ⟨"\x7d", ""⟩] ∧
        t'.text = " z.;\x7d" := by
  have h : ∀ c ∈ renameCalls, c.target < statement.size := by
    simp [renameCalls, EditCall.target, statement, size]
  obtain ⟨t', ht', hshape, htext, -⟩ := edit_eq_revise statement renameCalls h
  refine ⟨h, t', ht', ?_, ?_⟩
  · rw [hshape]
    rfl
  · rw [htext]
    rfl

end Tree

end TreeLint
