/-
TreeLint/Proofs/Tree/Building.lean

Building a shape gives a tree of that shape.

The steps of a shape, carried out by a builder, append the slots of the shape
numbered in document order (`Shape.number`), and enter the first of them as
the last child of the innermost open node.  Said for every builder that is in
the midst of a node, this is one induction over shapes (`Builder.run_steps`).

A table that lists an ordered tree in document order is accepted, because its
child lists hold every number but the root's exactly once
(`Element.cons_childIds_perm`).  The tree it is accepted as has the shape it was
listed from, because a table determines the shape below each of its slots
(`Tree.Fits.shape_eq`).
-/
import TreeLint.Proofs.Tree.Table
import Mathlib.Data.List.Perm.Basic

namespace TreeLint

namespace Shape

/-! ### Numbering -/

mutual

/-- The number of elements of a shape. -/
def size : Shape → Nat
  | token _ _ => 1
  | node _ ss => sizeAll ss + 1

/-- The number of elements of several shapes. -/
def sizeAll : List Shape → Nat
  | [] => 0
  | s :: ss => s.size + sizeAll ss

end

mutual

/-- The elements of a shape, numbered in document order from `next` on. -/
def number (next : NodeId) : Shape → Element
  | token k t => .token ⟨next, k, ⟨0, 0⟩, ⟨0, 0⟩⟩ t
  | node k ss => .node ⟨next, k, ⟨0, 0⟩, ⟨0, 0⟩⟩ (numberAll (next + 1) ss)

/-- The elements of several shapes, numbered one after the other. -/
def numberAll (next : NodeId) : List Shape → List Element
  | [] => []
  | s :: ss => s.number next :: numberAll (next + s.size) ss

end

theorem id_number (next : NodeId) (s : Shape) : (s.number next).id = next := by
  cases s <;> rw [number] <;> rfl

theorem shape_number (next : NodeId) (s : Shape) : (s.number next).shape = s := by
  induction s using Shape.induction generalizing next with
  | token k t => rw [number, Element.shape_token]
  | node k ss ih =>
    have hss : ∀ next, (numberAll next ss).map Element.shape = ss := by
      intro next
      induction ss generalizing next with
      | nil => rfl
      | cons s ss ihss =>
        rw [numberAll, List.map_cons, ih s List.mem_cons_self,
          ihss fun r hr => ih r (List.mem_cons_of_mem s hr)]
    rw [number, Element.shape_node, hss]

/-- In document order the numbers run through without gap. -/
theorem ids_number (next : NodeId) (s : Shape) :
    (s.number next).preorder.map Element.id = List.range' next s.size := by
  induction s using Shape.induction generalizing next with
  | token k t => rw [number, Element.preorder_token, size]; rfl
  | node k ss ih =>
    have hss : ∀ next, ((numberAll next ss).flatMap Element.preorder).map Element.id
        = List.range' next (sizeAll ss) := by
      intro next
      induction ss generalizing next with
      | nil => rfl
      | cons s ss ihss =>
        rw [numberAll, List.flatMap_cons, List.map_append, ih s List.mem_cons_self,
          ihss fun r hr => ih r (List.mem_cons_of_mem s hr), sizeAll, ← List.range'_append_1]
    rw [number, Element.preorder_node, List.map_cons, hss, size, List.range'_succ]
    rfl

theorem length_preorder_number (next : NodeId) (s : Shape) :
    (s.number next).preorder.length = s.size := by
  have h := congrArg List.length (s.ids_number next)
  rwa [List.length_map, List.length_range'] at h

/-- The slots of a shape in document order, numbered from `next` on. -/
def table (next : NodeId) (s : Shape) : Array Slot :=
  ((s.number next).preorder.map Element.slot).toArray

/-- The slots of several shapes. -/
def tableAll (next : NodeId) (ss : List Shape) : Array Slot :=
  (((numberAll next ss).flatMap Element.preorder).map Element.slot).toArray

theorem size_table (next : NodeId) (s : Shape) : (s.table next).size = s.size := by
  rw [table, List.size_toArray, List.length_map, length_preorder_number]

theorem tableAll_cons (next : NodeId) (s : Shape) (ss : List Shape) :
    tableAll next (s :: ss) = s.table next ++ tableAll (next + s.size) ss := by
  rw [tableAll, numberAll, List.flatMap_cons, List.map_append, table, tableAll,
    List.append_toArray]

theorem table_node (next : NodeId) (k : Kind) (ss : List Shape) :
    (node k ss).table next
      = #[⟨k, (numberAll (next + 1) ss).map Element.id, none⟩] ++ tableAll (next + 1) ss := by
  rw [table, number, Element.preorder_node, List.map_cons, tableAll, List.append_toArray]
  rfl

end Shape

/-! ### Carrying out the steps of a shape -/

theorem Builder.run_append (b : Builder) (steps steps' : List BuildStep) :
    b.run (steps ++ steps') = (b.run steps).run steps' :=
  List.foldl_append

/-- The slot with more children at its end. -/
def Slot.withChildren (s : Slot) (ids : List NodeId) : Slot :=
  { s with children := s.children ++ ids }

theorem Slot.withChildren_withChildren (s : Slot) (ids ids' : List NodeId) :
    (s.withChildren ids).withChildren ids' = s.withChildren (ids ++ ids') := by
  rw [withChildren, withChildren, withChildren, List.append_assoc]

namespace Builder

open Shape

theorem modify_append_left {xs ys : Array Slot} {i : NodeId} (h : i < xs.size) (f : Slot → Slot) :
    (xs ++ ys).modify i f = xs.modify i f ++ ys := by
  apply Array.ext
  · simp
  · intro j hj hj'
    simp only [Array.getElem_modify, Array.getElem_append, Array.size_modify]
    by_cases hij : i = j
    · subst hij
      simp [h]
    · simp [hij]

theorem modify_last (xs : Array Slot) (slot : Slot) (f : Slot → Slot) :
    (xs ++ #[slot]).modify xs.size f = xs ++ #[f slot] := by
  apply Array.ext
  · simp
  · intro j hj hj'
    simp only [Array.getElem_modify, Array.getElem_append]
    by_cases hij : xs.size = j
    · subst hij
      simp
    · have hlt : j < xs.size := by
        simp only [Array.size_append, Array.size_singleton] at hj'
        omega
      simp [hij, hlt]

theorem modify_modify (xs : Array Slot) (i : NodeId) (ids ids' : List NodeId) :
    (xs.modify i (·.withChildren ids)).modify i (·.withChildren ids')
      = xs.modify i (·.withChildren (ids ++ ids')) := by
  apply Array.ext
  · simp
  · intro j hj hj'
    simp only [Array.getElem_modify]
    split
    · rw [Slot.withChildren_withChildren]
    · rfl

variable {b : Builder} {p : NodeId} {rest : List NodeId}

theorem push_of_open (h : b.openNodes = p :: rest) (hp : p < b.size) (slot : Slot) :
    b.push slot = { b with slots := b.slots.modify p (·.withChildren [b.size]) ++ #[slot] } := by
  rw [push, h]
  show _ = Builder.mk _ _ _ _ _
  rw [← modify_append_left hp, Array.append_singleton]
  rfl

/-- What the steps of shapes do in the midst of a node. -/
theorem run_stepsAll_of_forall (ss : List Shape)
    (ih : ∀ s ∈ ss, ∀ {b : Builder} {p : NodeId} {rest : List NodeId}, b.pending = "" →
      b.openNodes = p :: rest → p < b.size → b.run s.steps
        = { b with slots := b.slots.modify p (·.withChildren [b.size]) ++ s.table b.size })
    (hpending : b.pending = "") (hopen : b.openNodes = p :: rest) (hp : p < b.size) :
    b.run (stepsAll ss)
      = { b with
          slots := b.slots.modify p (·.withChildren ((numberAll b.size ss).map Element.id))
            ++ tableAll b.size ss } := by
  induction ss generalizing b with
  | nil =>
    have hsame : b.slots.modify p (·.withChildren []) = b.slots := by
      apply Array.ext
      · simp
      · intro j hj hj'
        rw [Array.getElem_modify]
        split
        · rw [Slot.withChildren, List.append_nil]
        · rfl
    rw [stepsAll, numberAll, List.map_nil, hsame]
    rfl
  | cons s ss ihss =>
    -- the first shape takes up the next numbers, the others those behind it
    have hs := ih s List.mem_cons_self hpending hopen hp
    rw [stepsAll, run, List.foldl_append]
    rw [run] at hs
    rw [hs]
    have hsize : ({ b with
        slots := b.slots.modify p (·.withChildren [b.size]) ++ s.table b.size } : Builder).size
          = b.size + s.size := by
      rw [size, Array.size_append, Array.size_modify, size_table]
      rfl
    have hrest := ihss (b := { b with
        slots := b.slots.modify p (·.withChildren [b.size]) ++ s.table b.size })
      (fun r hr => ih r (List.mem_cons_of_mem s hr)) hpending hopen
      (by rw [hsize]; exact Nat.lt_add_right _ hp)
    rw [run, hsize] at hrest
    rw [hrest, modify_append_left (by rwa [Array.size_modify]), modify_modify, numberAll,
      List.map_cons, id_number, tableAll_cons, Array.append_assoc]
    rfl

/-- What the steps of a shape do in the midst of a node. -/
theorem run_steps (s : Shape) (hpending : b.pending = "") (hopen : b.openNodes = p :: rest)
    (hp : p < b.size) :
    b.run s.steps
      = { b with slots := b.slots.modify p (·.withChildren [b.size]) ++ s.table b.size } := by
  induction s using Shape.induction generalizing b p rest with
  | token k t =>
    rw [steps]
    show (step { b with pending := b.pending ++ t.trivia } (.addToken k t.text)) = _
    rw [hpending, String.empty_append, step]
    rw [push_of_open (b := { b with pending := t.trivia }) hopen hp]
    rw [table, number, Element.preorder_token]
    obtain ⟨slots, openNodes, root, pending, fault⟩ := b
    obtain rfl : pending = "" := hpending
    rfl
  | node k ss ih =>
    rw [steps, run, List.foldl_cons, List.foldl_append]
    obtain ⟨slots, openNodes, root, pending, fault⟩ := b
    obtain rfl : pending = "" := hpending
    obtain rfl : openNodes = p :: rest := hopen
    -- the node gets its slot when it is opened, and its children while it is open
    have hopened := push_of_open (b := ⟨slots, p :: rest, root, "", fault⟩) rfl hp { kind := k }
    have hinner := run_stepsAll_of_forall ss
      (b := ⟨slots.modify p (·.withChildren [slots.size]) ++ #[{ kind := k }],
        slots.size :: p :: rest, root, "", fault⟩) ih rfl rfl
      (by rw [size, Array.size_append, Array.size_modify]; exact Nat.lt_succ_self _)
    have hopen : step ⟨slots, p :: rest, root, "", fault⟩ (.openNode k)
        = ⟨slots.modify p (·.withChildren [slots.size]) ++ #[{ kind := k }],
          slots.size :: p :: rest, root, "", fault⟩ := by
      rw [step, hopened]
      rfl
    have hsize : (slots.modify p (·.withChildren [slots.size]) ++ #[({ kind := k } : Slot)]).size
        = slots.size + 1 := by
      rw [Array.size_append, Array.size_modify]
      rfl
    rw [run, size, hsize] at hinner
    have hlast := modify_last (slots.modify p (·.withChildren [slots.size])) { kind := k }
      (·.withChildren ((numberAll (slots.size + 1) ss).map Element.id))
    rw [Array.size_modify] at hlast
    rw [hopen, hinner, hlast, table_node, ← Array.append_assoc]
    rfl

/-- What the steps of a shape do from the start. -/
theorem run_empty_steps (s : Shape) :
    ({} : Builder).run s.steps = ⟨s.table 0, [], some 0, "", none⟩ := by
  cases s with
  | token k t =>
    rw [steps]
    show step { pending := "" ++ t.trivia } (.addToken k t.text) = _
    rw [String.empty_append, table, number, Element.preorder_token]
    rfl
  | node k ss =>
    have hopen : step {} (.openNode k) = ⟨#[{ kind := k }], [0], some 0, "", none⟩ := rfl
    have hinner := run_stepsAll_of_forall ss
      (b := ⟨#[{ kind := k }], [0], some 0, "", none⟩) (fun s _ _ _ _ => run_steps s) rfl rfl
      Nat.one_pos
    rw [run] at hinner
    rw [steps, run, List.foldl_cons, List.foldl_append, hopen, hinner, table_node]
    rfl

end Builder

/-! ### Queued trivia -/

namespace Builder

variable (b : Builder)

theorem run_cons (s : BuildStep) (steps : List BuildStep) :
    b.run (s :: steps) = (b.step s).run steps := rfl

theorem step_queueTrivia_empty : b.step (.queueTrivia "") = b := by
  show { b with pending := b.pending ++ "" } = b
  rw [String.append_empty]

theorem step_queueTrivia_append (s s' : String) :
    b.step (.queueTrivia (s ++ s')) = (b.step (.queueTrivia s)).step (.queueTrivia s') := by
  show { b with pending := b.pending ++ (s ++ s') } = { b with pending := b.pending ++ s ++ s' }
  rw [String.append_assoc]

theorem push_queueTrivia (s : String) (slot : Slot) :
    (b.step (.queueTrivia s)).push slot = (b.push slot).step (.queueTrivia s) := by
  cases hopen : b.openNodes with
  | cons p rest => simp [push, step, hopen, size]
  | nil =>
    cases hroot : b.root <;> simp [push, step, hopen, hroot, size, fail]

theorem step_queueTrivia_openNode (s : String) (k : Kind) :
    (b.step (.queueTrivia s)).step (.openNode k)
      = (b.step (.openNode k)).step (.queueTrivia s) := by
  have hpush := b.push_queueTrivia s { kind := k }
  rw [step, hpush]
  rfl

theorem step_queueTrivia_closeNode (s : String) :
    (b.step (.queueTrivia s)).step .closeNode = (b.step .closeNode).step (.queueTrivia s) := by
  rcases hopen : b.openNodes with - | ⟨p, rest⟩ <;> simp [step, hopen, fail]

end Builder

/-! ### Tables in document order -/

namespace Element

/-- The numbers of all children in an element, node by node. -/
def childIds (e : Element) : List NodeId := e.preorder.flatMap fun x => x.children.map id

/-- Every element but the top one is a child exactly once. -/
theorem cons_childIds_perm (e : Element) : (e.id :: e.childIds).Perm (e.preorder.map id) := by
  induction e using Element.induction with
  | token l t => rw [childIds, preorder_token]; exact .refl _
  | node l cs ih =>
    have hcs : (cs.flatMap fun c => c.id :: c.childIds).Perm
        (cs.flatMap fun c => c.preorder.map id) := List.Perm.flatMap_left cs ih
    rw [childIds, preorder_node, List.flatMap_cons, List.map_cons, List.map_flatMap,
      List.flatMap_assoc]
    exact ((List.map_append_flatMap_perm cs id childIds).trans hcs).cons _

end Element

namespace Tree

open Element

/-- A table determines the shape below each of its slots. -/
theorem Fits.shape_eq {t : Tree} {e f : Element} (he : t.Fits e) (hf : t.Fits f)
    (hid : e.id = f.id) : e.shape = f.shape := by
  induction e using Element.induction generalizing f with
  | token l tok =>
    have hslot := he _ (.refl _)
    rw [hid, hf _ (.refl _), Option.some.injEq] at hslot
    cases f with
    | token l' tok' =>
      simp only [slot, kind_token, token?_token, Slot.mk.injEq, Option.some.injEq] at hslot
      rw [shape_token, shape_token, hslot.1, hslot.2.2]
    | node l' cs' => simp [slot] at hslot
  | node l cs ih =>
    have hslot := he _ (.refl _)
    rw [hid, hf _ (.refl _), Option.some.injEq] at hslot
    cases f with
    | token l' tok' => simp [slot] at hslot
    | node l' cs' =>
      simp only [slot, kind_node, children_node, Slot.mk.injEq] at hslot
      obtain ⟨hkind, hids, -⟩ := hslot
      -- the children have the same numbers, one by one
      have hcs : ∀ ds ds' : List Element, (∀ d ∈ ds, d ∈ cs) → (∀ d ∈ ds', d ∈ cs') →
          ds'.map Element.id = ds.map Element.id → ds.map shape = ds'.map shape := by
        intro ds
        induction ds with
        | nil =>
          intro ds' _ _ h
          obtain rfl := List.map_eq_nil_iff.mp h
          rfl
        | cons d ds ihds =>
          intro ds' hds hds' h
          obtain ⟨d', ds'', rfl, hd, hrest⟩ := List.map_eq_cons_iff.mp h
          have hmem := hds d List.mem_cons_self
          have hmem' := hds' d' List.mem_cons_self
          rw [List.map_cons, List.map_cons,
            ih d hmem (he.child hmem) (hf.child hmem') hd.symm,
            ihds ds'' (fun x hx => hds x (List.mem_cons_of_mem d hx))
              (fun x hx => hds' x (List.mem_cons_of_mem d' hx)) hrest]
      rw [shape_node, shape_node, hkind, hcs cs cs' (fun _ h => h) (fun _ h => h) hids]

/-- A numbered shape fits the table it is listed in. -/
theorem fits_number {t : Tree} {s : Shape} (hslots : t.slots = s.table 0) :
    t.Fits (s.number 0) := by
  intro x hx
  obtain ⟨i, hi, hget⟩ := List.mem_iff_getElem.mp (mem_preorder_iff.mpr hx)
  have hid : x.id = i := by
    have hlen : i < ((s.number 0).preorder.map Element.id).length := by rwa [List.length_map]
    have := List.getElem_map Element.id (h := hlen)
    simp only [s.ids_number 0, hget] at this
    simpa using this.symm
  rw [hslots, hid, Shape.table, List.getElem?_toArray, List.getElem?_map,
    List.getElem?_eq_getElem hi, hget]
  rfl

/-- A table that lists a shape in document order is accepted, as a tree of that shape. -/
theorem exists_ofSlots_table (s : Shape) :
    ∃ t, ofSlots (s.table 0) 0 = .ok t ∧ t.slots = s.table 0 ∧ t.top.shape = s := by
  have hids := s.ids_number 0
  have hperm := (s.number 0).cons_childIds_perm
  rw [hids, Shape.id_number] at hperm
  have hnodup : (0 :: (s.number 0).childIds).Nodup :=
    hperm.nodup_iff.mpr List.nodup_range'
  have hchildren : (s.table 0).toList.flatMap (·.children) = (s.number 0).childIds := by
    rw [Shape.table, childIds, List.flatMap_map]
    rfl
  have hpos : 0 < s.size := by cases s <;> rw [Shape.size] <;> omega
  obtain ⟨parents, hparents⟩ := @exists_adoptAll_eq_ok 0 0 (s.table 0).toList
    (Array.replicate s.size none)
    (by
      intro r hr htoken
      obtain ⟨x, -, rfl⟩ := List.mem_map.mp (by rwa [Shape.table] at hr)
      cases x with
      | token l t => rfl
      | node l cs => simp [slot] at htoken)
    (by rw [hchildren]; exact (List.nodup_cons.mp hnodup).2)
    (by
      intro c hc
      rw [hchildren] at hc
      refine ⟨fun h => (List.nodup_cons.mp hnodup).1 (h ▸ hc), ?_⟩
      have hmem : c ∈ List.range' 0 s.size := hperm.subset (List.mem_cons_of_mem _ hc)
      have hlt : c < s.size := by simpa using (List.mem_range'_1.mp hmem).2
      rw [Array.getElem?_replicate, if_pos hlt])
  have htable : parentTable (s.table 0) 0 = .ok parents := by
    rw [parentTable, if_neg, Shape.size_table, hparents]
    rw [Shape.size_table]
    omega
  have hok : ∃ t, ofSlots (s.table 0) 0 = .ok t ∧ t.slots = s.table 0 ∧ t.root = 0 := by
    rw [ofSlots]
    split
    · rename_i e he
      rw [htable] at he
      cases he
    · exact ⟨_, rfl, rfl, rfl⟩
  obtain ⟨t, ht, hslots, hroot⟩ := hok
  have hshape := t.fits_top.shape_eq (fits_number hslots) (by rw [id_top, hroot, Shape.id_number])
  exact ⟨t, ht, hslots, by rw [hshape, Shape.shape_number]⟩

/-- Building a shape gives a tree of that shape. -/
theorem exists_ofSteps_steps (s : Shape) :
    ∃ t, ofSteps s.steps = .ok t ∧ t.top.shape = s := by
  obtain ⟨t, ht, -, hshape⟩ := exists_ofSlots_table s
  refine ⟨t, ?_, hshape⟩
  rw [ofSteps, Builder.run_empty_steps]
  exact ht

end Tree

end TreeLint
