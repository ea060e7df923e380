/-
TreeLint/Proofs/Tree/Acceptance.lean

Which tables of slots are accepted, and that what is accepted is a tree.

The check is a scan: it comes across every slot, each before its children
(`marks`), and keeps the table of parents so far.  That table has a parent for
a slot exactly when the slot has been met as a child (`Met`), so a step of the
scan fails exactly on a faulty mark (`findsFaults_visit`), and the scan as a
whole finds the first fault.  A table without faults is *well formed*
(`wellFormed_iff`).

Nothing in the check looks for cycles.  That what the root reaches has none
follows from what is checked: no slot is a child twice, and the root is none at
all.  It is said here of the table itself, without the ordered tree: the walk
from the root with a stack (`Walk`) ends, and so does the way up from every slot
that the root reaches (`Ascent`).  Slots that the root does not reach may well
lie on a cycle.
-/
import TreeLint.Proofs.Scan
import TreeLint.Proofs.Tree.Lookup

namespace TreeLint

namespace Tree

/-! ### The scan -/

/-- What the check comes across: a slot as a whole, or a slot as a child of another. -/
inductive Mark where
  | slot (index : NodeId) (s : Slot)
  | child (parent c : NodeId)

/-- All that the check comes across from number `index` on, each slot before its children. -/
def marks : (index : NodeId) → List Slot → List Mark
  | _, [] => []
  | index, s :: rest => .slot index s :: (s.children.map (.child index) ++ marks (index + 1) rest)

/-- The slot is among the children met so far. -/
def Met (before : List Mark) (c : NodeId) : Prop := ∃ parent, .child parent c ∈ before

/-- The fault of a mark in a table of `count` slots, given the marks before it. -/
inductive Faulty (count : Nat) (root : NodeId) (before : List Mark) : Mark → TreeError → Prop
  | tokenWithChildren {index : NodeId} {s : Slot} :
      s.token.isSome = true → s.children ≠ [] →
      Faulty count root before (.slot index s) (.tokenWithChildren index)
  | danglingChild {parent c : NodeId} :
      count ≤ c ∨ c = root → Faulty count root before (.child parent c) (.danglingChild parent c)
  | sharedChild {parent c : NodeId} :
      c < count → c ≠ root → Met before c →
      Faulty count root before (.child parent c) (.sharedChild c)

/-- One step of the check. -/
def visit (root : NodeId) (parents : ParentTable) : Mark → Except TreeError ParentTable
  | .slot index s =>
    if s.token.isSome && !s.children.isEmpty then .error (.tokenWithChildren index) else .ok parents
  | .child parent c => adopt root parent [c] parents

theorem adopt_cons (root p c : NodeId) (cs : List NodeId) (parents : ParentTable) :
    adopt root p (c :: cs) parents = adopt root p [c] parents >>= adopt root p cs := by
  rw [adopt, adopt]
  rcases parents[c]? with - | owner
  · rfl
  · simp only
    split
    · rfl
    · split <;> rfl

theorem foldlM_visit_children (root p : NodeId) (cs : List NodeId) (parents : ParentTable) :
    (cs.map (Mark.child p)).foldlM (visit root) parents = adopt root p cs parents := by
  induction cs generalizing parents with
  | nil => rfl
  | cons c cs ih =>
    rw [List.map_cons, List.foldlM_cons, adopt_cons, visit]
    congr 1
    funext parents
    exact ih parents

/-- The check is a loop over the marks. -/
theorem adoptAll_eq_foldlM (root index : NodeId) (slots : List Slot) (parents : ParentTable) :
    adoptAll root index slots parents = (marks index slots).foldlM (visit root) parents := by
  induction slots generalizing index parents with
  | nil => rfl
  | cons s slots ih =>
    rw [adoptAll, marks, List.foldlM_cons, visit]
    split
    · rfl
    · show _ = (s.children.map (Mark.child index) ++ marks (index + 1) slots).foldlM _ _
      rw [List.foldlM_append, foldlM_visit_children]
      rcases adopt root index s.children parents with e | between
      · rfl
      · exact ih (index + 1) between

/-- The parents go with the marks so far: a slot has a parent if it has been met as a child. -/
structure GoesWith (count : Nat) (before : List Mark) (parents : ParentTable) : Prop where
  size_eq : parents.size = count
  isSome_iff : ∀ c owner, parents[c]? = some owner → (owner.isSome = true ↔ Met before c)

theorem met_append_singleton {before : List Mark} {m : Mark} {c : NodeId} :
    Met (before ++ [m]) c ↔ Met before c ∨ ∃ parent, m = .child parent c := by
  simp only [Met, List.mem_append, List.mem_singleton, exists_or, eq_comm]

/-- A step of the check fails exactly on a faulty mark. -/
theorem findsFaults_visit (count : Nat) (root : NodeId) :
    FindsFaults (Faulty count root) (GoesWith count) (visit root) where
  error := by
    intro before parents h m e
    cases m with
    | slot index s =>
      rw [visit]
      constructor
      · intro he
        split at he
        · rename_i hs
          obtain rfl := Except.error.inj he
          rw [Bool.and_eq_true, Bool.not_eq_true', List.isEmpty_eq_false_iff] at hs
          exact .tokenWithChildren hs.1 hs.2
        · cases he
      · rintro ⟨htoken, hchildren⟩
        rw [if_pos]
        rw [htoken, Bool.true_and, Bool.not_eq_true', List.isEmpty_eq_false_iff]
        exact hchildren
    | child p c =>
      rw [visit, adopt]
      rcases hc : parents[c]? with - | owner
      · have hcount : count ≤ c := by rwa [Array.getElem?_eq_none_iff, h.size_eq] at hc
        simp only [Except.error.injEq]
        constructor
        · rintro rfl
          exact .danglingChild (.inl hcount)
        · rintro (_ | _ | ⟨hlt, -, -⟩)
          · rfl
          · exact absurd hlt (Nat.not_lt_of_le hcount)
      · -- the slot is in range; it has an owner if and only if it has been met
        have hlt : c < count := by
          have hlt := (Array.getElem?_eq_some_iff.mp hc).1
          rwa [h.size_eq] at hlt
        have howner := h.isSome_iff c owner hc
        by_cases hroot : c = root
        · simp only [if_pos hroot, Except.error.injEq]
          constructor
          · rintro rfl
            exact .danglingChild (.inr hroot)
          · rintro (_ | _ | ⟨-, hne, -⟩)
            · rfl
            · exact absurd hroot hne
        · have hfine : ¬ (count ≤ c ∨ c = root) := not_or.mpr ⟨Nat.not_le_of_lt hlt, hroot⟩
          simp only [if_neg hroot]
          by_cases hsome : owner.isSome = true
          · simp only [if_pos hsome, Except.error.injEq]
            constructor
            · rintro rfl
              exact .sharedChild hlt hroot (howner.mp hsome)
            · rintro (_ | hdangling | _)
              · exact absurd hdangling hfine
              · rfl
          · simp only [if_neg hsome, adopt]
            constructor
            · intro he
              cases he
            · rintro (_ | hdangling | ⟨-, -, hmet⟩)
              · exact absurd hdangling hfine
              · exact absurd (howner.mpr hmet) hsome
  ok := by
    intro before parents h m parents' hm
    cases m with
    | slot index s =>
      rw [visit] at hm
      split at hm
      · cases hm
      · obtain rfl := Except.ok.inj hm
        refine ⟨h.size_eq, ?_⟩
        intro c owner hc
        rw [h.isSome_iff c owner hc, met_append_singleton]
        simp
    | child p c =>
      obtain ⟨hsize, -, -, hget⟩ := adopt_ok hm
      refine ⟨hsize.trans h.size_eq, ?_⟩
      intro d owner hd
      rw [hget] at hd
      rw [met_append_singleton]
      split at hd
      · rename_i hmem
        obtain rfl := List.mem_singleton.mp hmem
        obtain rfl := Option.some.inj hd
        simp
      · rename_i hmem
        rw [List.mem_singleton] at hmem
        rw [h.isSome_iff d owner hd]
        simp [Ne.symm hmem]

/-- The parents that all marks come to, from a table without parents. -/
theorem goesWith_nil (count : Nat) : GoesWith count [] (Array.replicate count none) := by
  refine ⟨Array.size_replicate, ?_⟩
  intro c owner hc
  rw [Array.getElem?_replicate] at hc
  split at hc
  · obtain rfl := Option.some.inj hc
    simp [Met]
  · cases hc

/-! ### Well-formed tables -/

/-- The table describes a tree below `root`, as far as each slot and each child can tell. -/
structure WellFormed (slots : Array Slot) (root : NodeId) : Prop where
  root_lt : root < slots.size
  leaf : ∀ s ∈ slots, s.token.isSome = true → s.children = []
  child_lt : ∀ s ∈ slots, ∀ c ∈ s.children, c < slots.size
  child_ne_root : ∀ s ∈ slots, ∀ c ∈ s.children, c ≠ root
  nodup : (slots.toList.flatMap (·.children)).Nodup

/-- The child that a mark is about. -/
def Mark.child? : Mark → Option NodeId
  | .slot _ _ => none
  | .child _ c => some c

theorem filterMap_child?_marks (index : NodeId) (slots : List Slot) :
    (marks index slots).filterMap Mark.child? = slots.flatMap (·.children) := by
  induction slots generalizing index with
  | nil => rfl
  | cons s slots ih =>
    have hchildren : (s.children.map (Mark.child index)).filterMap Mark.child? = s.children := by
      rw [List.filterMap_map]
      exact List.filterMap_some
    rw [marks, List.filterMap_cons_none rfl, List.filterMap_append, hchildren, ih,
      List.flatMap_cons]

theorem met_iff {before : List Mark} {c : NodeId} :
    Met before c ↔ c ∈ before.filterMap Mark.child? := by
  rw [List.mem_filterMap]
  constructor
  · rintro ⟨parent, hmem⟩
    exact ⟨_, hmem, rfl⟩
  · rintro ⟨m, hmem, hm⟩
    cases m with
    | slot index s => cases hm
    | child parent d =>
      obtain rfl := Option.some.inj hm
      exact ⟨parent, hmem⟩

/-- The mark is as it should be, whatever the marks before it. -/
def Mark.Sound (count : Nat) (root : NodeId) : Mark → Prop
  | .slot _ s => s.token.isSome = true → s.children = []
  | .child _ c => c < count ∧ c ≠ root

theorem not_faulty_iff {count : Nat} {root : NodeId} {before : List Mark} {m : Mark} :
    (∀ e, ¬ Faulty count root before m e) ↔
      m.Sound count root ∧ ∀ c ∈ m.child?, ¬ Met before c := by
  cases m with
  | slot index s =>
    constructor
    · intro h
      refine ⟨?_, by rintro c ⟨⟩⟩
      intro htoken
      by_contra hchildren
      exact h _ (.tokenWithChildren htoken hchildren)
    · rintro ⟨hsound, -⟩ e ⟨htoken, hchildren⟩
      exact hchildren (hsound htoken)
  | child parent c =>
    constructor
    · intro h
      have hlt : c < count := Nat.lt_of_not_le fun hle => h _ (.danglingChild (.inl hle))
      have hroot : c ≠ root := fun heq => h _ (.danglingChild (.inr heq))
      refine ⟨⟨hlt, hroot⟩, ?_⟩
      rintro d hd hmet
      obtain rfl := Option.some.inj hd
      exact h _ (.sharedChild hlt hroot hmet)
    · rintro ⟨⟨hlt, hroot⟩, hmet⟩ e (_ | hdangling | ⟨-, -, hshared⟩)
      · exact hdangling.elim (Nat.not_le_of_lt hlt) hroot
      · exact hmet c rfl hshared

/-- Marks are faultless when each of them is as it should be and no child is met twice. -/
theorem faultless_iff {count : Nat} {root : NodeId} {ms : List Mark} :
    Faultless (Faulty count root) ms ↔
      (∀ m ∈ ms, m.Sound count root) ∧ (ms.filterMap Mark.child?).Nodup := by
  induction ms using List.reverseRecOn with
  | nil => simp [faultless_nil]
  | append_singleton ms m ih =>
    have hnodup : ((ms ++ [m]).filterMap Mark.child?).Nodup ↔
        (ms.filterMap Mark.child?).Nodup ∧ ∀ c ∈ m.child?, ¬ Met ms c := by
      rw [List.filterMap_append]
      rcases hm : m.child? with - | c
      · simp [List.filterMap_cons_none hm]
      · rw [List.filterMap_cons_some hm, List.filterMap_nil, List.nodup_append_comm,
          List.singleton_append, List.nodup_cons, and_comm, ← met_iff]
        simp only [Option.mem_some_iff, forall_eq']
    rw [faultless_append_singleton, ih, not_faulty_iff, List.forall_mem_append,
      List.forall_mem_singleton, hnodup, and_and_and_comm]

theorem forall_mem_marks {count : Nat} {root index : NodeId} {slots : List Slot} :
    (∀ m ∈ marks index slots, m.Sound count root) ↔
      ∀ s ∈ slots, (s.token.isSome = true → s.children = []) ∧
        ∀ c ∈ s.children, c < count ∧ c ≠ root := by
  induction slots generalizing index with
  | nil => simp [marks]
  | cons s slots ih =>
    rw [marks, List.forall_mem_cons, List.forall_mem_append, List.forall_mem_map, ih,
      List.forall_mem_cons, ← and_assoc]
    rfl

/-- A table is well formed when its root is in range and its marks are faultless. -/
theorem wellFormed_iff {slots : Array Slot} {root : NodeId} :
    WellFormed slots root ↔
      root < slots.size ∧ Faultless (Faulty slots.size root) (marks 0 slots.toList) := by
  rw [faultless_iff, forall_mem_marks, filterMap_child?_marks]
  simp only [Array.mem_toList_iff]
  constructor
  · intro h
    exact ⟨h.root_lt, fun s hs => ⟨h.leaf s hs, fun c hc => ⟨h.child_lt s hs c hc,
      h.child_ne_root s hs c hc⟩⟩, h.nodup⟩
  · rintro ⟨hroot, hslots, hnodup⟩
    exact ⟨hroot, fun s hs => (hslots s hs).1, fun s hs c hc => ((hslots s hs).2 c hc).1,
      fun s hs c hc => ((hslots s hs).2 c hc).2, hnodup⟩

/-- The check of a table with its root in range is a loop over the marks. -/
theorem parentTable_eq {slots : Array Slot} {root : NodeId} (h : root < slots.size) :
    parentTable slots root
      = (marks 0 slots.toList).foldlM (visit root) (Array.replicate slots.size none) := by
  rw [parentTable, if_neg (Nat.not_le_of_lt h), adoptAll_eq_foldlM]

/-- A table is accepted exactly when it is well formed. -/
theorem exists_ofSlots_eq_ok_iff {slots : Array Slot} {root : NodeId} :
    (∃ t, ofSlots slots root = .ok t) ↔ WellFormed slots root := by
  have hchecked : (∃ t, ofSlots slots root = .ok t) ↔
      ∃ parents, parentTable slots root = .ok parents := by
    constructor
    · rintro ⟨t, ht⟩
      obtain ⟨rfl, rfl⟩ := slots_of_ofSlots ht
      exact ⟨t.parents, t.accepted⟩
    · rintro ⟨parents, hparents⟩
      exact ⟨_, ofSlots_slots ⟨slots, root, parents, _, hparents, rfl⟩⟩
  rw [hchecked, wellFormed_iff]
  by_cases hroot : root < slots.size
  · rw [parentTable_eq hroot,
      (findsFaults_visit slots.size root).exists_foldlM_eq_ok_iff (goesWith_nil _)]
    exact (and_iff_right hroot).symm
  · constructor
    · rintro ⟨parents, hparents⟩
      rw [parentTable, if_pos (Nat.le_of_not_lt hroot)] at hparents
      cases hparents
    · rintro ⟨hlt, -⟩
      exact absurd hlt hroot

/-- A table is refused for its root, or else with the first fault of its marks. -/
theorem ofSlots_eq_error_iff {slots : Array Slot} {root : NodeId} {e : TreeError} :
    ofSlots slots root = .error e ↔
      (slots.size ≤ root ∧ e = .empty) ∨
        (root < slots.size ∧ FirstFault (Faulty slots.size root) (marks 0 slots.toList) e) := by
  have hchecked : ofSlots slots root = .error e ↔ parentTable slots root = .error e := by
    rw [ofSlots]
    split
    · rename_i e' he'
      rw [he', Except.error.injEq, Except.error.injEq]
    · rename_i parents hparents
      refine iff_of_false (by rintro ⟨⟩) ?_
      intro he
      cases hparents.symm.trans he
  rw [hchecked]
  by_cases hroot : root < slots.size
  · rw [parentTable_eq hroot,
      (findsFaults_visit slots.size root).foldlM_eq_error_iff (goesWith_nil _)]
    simp [hroot]
  · rw [parentTable, if_pos (Nat.le_of_not_lt hroot)]
    simp [hroot, Nat.le_of_not_lt hroot, eq_comm]

/-! ### Walking down -/

/-- The walk over a table in document order, which takes the next slot from a stack and puts the
children of that slot on top: from `stack` on it ends, and visits `visited`. -/
inductive Walk (slots : Array Slot) : (stack visited : List NodeId) → Prop
  | done : Walk slots [] []
  | visit {id : NodeId} {s : Slot} {stack visited : List NodeId} :
      slots[id]? = some s → Walk slots (s.children ++ stack) visited →
      Walk slots (id :: stack) (id :: visited)

/-- The walk takes one course only. -/
theorem Walk.unique {slots : Array Slot} {stack visited visited' : List NodeId}
    (h : Walk slots stack visited) (h' : Walk slots stack visited') : visited = visited' := by
  induction h generalizing visited' with
  | done =>
    cases h'
    rfl
  | visit hs _ ih =>
    cases h' with
    | visit hs' h' =>
      obtain rfl := Option.some.inj (hs.symm.trans hs')
      rw [ih h']

variable {t : Tree}

open Element

/-- The walk goes through an element that stands for slots of the table in document order. -/
theorem Fits.walk {e : Element} (h : t.Fits e) {stack visited : List NodeId}
    (hrest : Walk t.slots stack visited) :
    Walk t.slots (e.id :: stack) (e.preorder.map Element.id ++ visited) := by
  induction e using Element.induction generalizing stack visited with
  | token l tok =>
    rw [preorder_token]
    exact .visit (h _ (.refl _)) hrest
  | node l cs ih =>
    -- the children stand on top of the stack; the walk is through with one before the next
    have hcs : ∀ ds : List Element, (∀ d ∈ ds, d ∈ cs) →
        Walk t.slots (ds.map Element.id ++ stack)
          ((ds.flatMap preorder).map Element.id ++ visited) := by
      intro ds hds
      induction ds with
      | nil => exact hrest
      | cons d ds ihds =>
        have hd := hds d List.mem_cons_self
        rw [List.map_cons, List.cons_append, List.flatMap_cons, List.map_append, List.append_assoc]
        exact ih d hd (h.child hd) (ihds fun x hx => hds x (List.mem_cons_of_mem d hx))
    rw [preorder_node]
    exact .visit (h _ (.refl _)) (hcs cs fun d hd => hd)

variable (t) in
/-- The walk from the root visits the elements of the ordered tree in document order. -/
theorem walk_root : Walk t.slots [t.root] (t.top.preorder.map Element.id) := by
  have h := t.fits_top.walk .done
  rwa [id_top, List.append_nil] at h

/-! ### Going up -/

variable (t) in
/-- The parents above a slot, the nearest first, up to a slot that has none. -/
inductive Ascent : (id : NodeId) → (above : List NodeId) → Prop
  | top {id : NodeId} : t.parent? id = none → Ascent id []
  | step {id p : NodeId} {above : List NodeId} :
      t.parent? id = some p → Ascent p above → Ascent id (p :: above)

/-- The way up from an element goes through what it lies in, and then on from there. -/
theorem Fits.ascent {e x : Element} {above : List Element} {beyond : List NodeId} (h : t.Fits e)
    (hx : Lineage e x above) (hrest : Ascent t e.id beyond) :
    Ascent t x.id (above.map Element.id ++ beyond) := by
  induction hx generalizing beyond with
  | refl => exact hrest
  | @child e c x above hc _ ih =>
    rw [List.map_append, List.append_assoc]
    exact ih (h.child hc) (.step (h.parent? hc) hrest)

/-- What is reached from the root is reached by way of its parent, so nothing there is its own. -/
theorem not_reachable_of_parent?_eq_self {c : NodeId} (h : t.parent? c = some c) :
    ¬ t.Reachable c := by
  intro hc
  -- the way from the root never comes to `c`, since `c` is a child of itself only
  have key : ∀ {id}, t.Reachable id → id ≠ c := by
    intro id hid
    induction hid with
    | root =>
      rintro rfl
      rw [parent?_root] at h
      cases h
    | @child p d s _ hs hd ih =>
      rintro rfl
      have hparent := parent?_eq_some_iff.mpr ⟨s, hs, hd⟩
      exact ih (Option.some.inj (hparent.symm.trans h))
  exact key hc rfl

/-- A slot that is its own child may be added to any table that is accepted. -/
theorem WellFormed.push_loop {slots : Array Slot} {root : NodeId} (h : WellFormed slots root)
    (kind : Kind) : WellFormed (slots.push { kind, children := [slots.size] }) root := by
  have hsize : (slots.push { kind, children := [slots.size] }).size = slots.size + 1 :=
    Array.size_push ..
  refine ⟨?_, ?_, ?_, ?_, ?_⟩
  · rw [hsize]
    exact Nat.lt_succ_of_lt h.root_lt
  · intro s hs htoken
    rcases Array.mem_push.mp hs with hs | rfl
    · exact h.leaf s hs htoken
    · cases htoken
  · intro s hs c hc
    rw [hsize]
    rcases Array.mem_push.mp hs with hs | rfl
    · exact Nat.lt_succ_of_lt (h.child_lt s hs c hc)
    · rw [List.mem_singleton.mp hc]
      exact Nat.lt_succ_self _
  · intro s hs c hc
    rcases Array.mem_push.mp hs with hs | rfl
    · exact h.child_ne_root s hs c hc
    · rw [List.mem_singleton.mp hc]
      exact (Nat.ne_of_lt h.root_lt).symm
  · rw [Array.toList_push, List.flatMap_append, List.flatMap_singleton, List.nodup_append]
    refine ⟨h.nodup, List.nodup_singleton _, ?_⟩
    rintro a ha b hb rfl
    -- the children so far are among the slots so far
    obtain ⟨s, hs, hc⟩ := List.mem_flatMap.mp ha
    have hlt := h.child_lt s (Array.mem_toList_iff.mp hs) a hc
    rw [List.mem_singleton.mp hb] at hlt
    exact absurd hlt (Nat.lt_irrefl _)

/-! ### Acceptance -/

variable (t) in
/-- What the root reaches is a tree. -/
structure IsTree : Prop where
  /-- A slot has the parent whose child it is. -/
  parent?_iff : ∀ c p, t.parent? c = some p ↔ ∃ s, t.slots[p]? = some s ∧ c ∈ s.children
  /-- The ordered tree is that of the table. -/
  slot_eq : ∀ x, Below t.top x → t.slots[x.id]? = some x.slot
  /-- The walk from the root ends; it goes through the ordered tree. -/
  walk : Walk t.slots [t.root] (t.top.preorder.map Element.id)
  /-- The walk visits no slot twice. -/
  nodup : (t.top.preorder.map Element.id).Nodup
  /-- The walk visits what the root reaches. -/
  mem_iff : ∀ id, id ∈ t.top.preorder.map Element.id ↔ t.Reachable id
  /-- The way up from what the root reaches ends at the root. -/
  ascent : ∀ id, t.Reachable id → t.Ascent id ((t.ancestors id).map Element.id) ∧
    (id :: (t.ancestors id).map Element.id).getLast? = some t.root

variable (t) in
theorem isTree : t.IsTree where
  parent?_iff _ _ := parent?_eq_some_iff
  slot_eq _ := slot_eq_of_below_top
  walk := t.walk_root
  nodup := t.nodup_preorder
  mem_iff id := by
    rw [reachable_iff, List.mem_map]
    simp only [mem_preorder_iff]
  ascent id hid := by
    obtain ⟨x, hx, rfl⟩ := reachable_iff.mp hid
    obtain ⟨above, habove⟩ := hx.exists_lineage
    have hroot : Ascent t t.top.id [] := .top (by rw [id_top, parent?_root])
    have hascent := t.fits_top.ascent habove hroot
    rw [List.append_nil] at hascent
    rw [ancestors_eq hx habove]
    refine ⟨hascent, ?_⟩
    cases habove with
    | refl => rw [← id_top]; rfl
    | child hc _ =>
      rw [List.map_append, List.map_singleton, id_top, ← List.cons_append, List.getLast?_concat]

/-- **Acceptance.**  A table is accepted exactly when it is well formed, and is refused with the
first fault otherwise.  What is accepted is a tree below its root; slots that the root does not
reach may lie on a cycle, as a slot that is its own child does.  The table is meant to have at most
`2 ^ 32` slots, as numbers of slots have 32 bits. -/
theorem ofSlots_wellFormed_isTree (slots : Array Slot) (root : NodeId) :
    ((∃ t, ofSlots slots root = .ok t) ↔ WellFormed slots root) ∧
    (∀ e, ofSlots slots root = .error e ↔
      (slots.size ≤ root ∧ e = .empty) ∨
        (root < slots.size ∧ FirstFault (Faulty slots.size root) (marks 0 slots.toList) e)) ∧
    ∀ t, ofSlots slots root = .ok t → t.slots = slots ∧ t.root = root ∧ t.IsTree ∧
      ∀ kind, ∃ t', ofSlots (slots.push { kind, children := [slots.size] }) root = .ok t' ∧
        t'.parent? slots.size = some slots.size ∧ ¬ t'.Reachable slots.size := by
  refine ⟨exists_ofSlots_eq_ok_iff, fun e => ofSlots_eq_error_iff, ?_⟩
  intro t ht
  obtain ⟨hslots, hroot⟩ := slots_of_ofSlots ht
  refine ⟨hslots, hroot, t.isTree, ?_⟩
  intro kind
  have hwellFormed := (exists_ofSlots_eq_ok_iff.mp ⟨t, ht⟩).push_loop kind
  obtain ⟨t', ht'⟩ := exists_ofSlots_eq_ok_iff.mpr hwellFormed
  have hparent : t'.parent? slots.size = some slots.size := by
    rw [parent?_eq_some_iff, (slots_of_ofSlots ht').1]
    exact ⟨_, Array.getElem?_push_size, List.mem_singleton_self _⟩
  exact ⟨t', ht', hparent, not_reachable_of_parent?_eq_self hparent⟩

/-- A block with one token, and next to it two blocks that are each other's child. -/
def looseCycle : Array Slot :=
  #[⟨.block, [1], none⟩, ⟨.semicolonToken, [], some ⟨";", ""⟩⟩, ⟨.block, [3], none⟩,
    ⟨.block, [2], none⟩]

theorem ofSlots_wellFormed_isTree_looseCycle :
    WellFormed looseCycle 0 ∧ ∃ t, ofSlots looseCycle 0 = .ok t ∧ t.IsTree ∧
      t.parent? 2 = some 3 ∧ t.parent? 3 = some 2 := by
  have hwellFormed : WellFormed looseCycle 0 :=
    ⟨by decide, by decide, by decide, by decide, by decide⟩
  obtain ⟨haccepted, -, htree⟩ := ofSlots_wellFormed_isTree looseCycle 0
  obtain ⟨t, ht⟩ := haccepted.mpr hwellFormed
  obtain ⟨hslots, -, hisTree, -⟩ := htree t ht
  refine ⟨hwellFormed, t, ht, hisTree, ?_, ?_⟩
  · rw [hisTree.parent?_iff, hslots]
    exact ⟨_, rfl, List.mem_singleton_self _⟩
  · rw [hisTree.parent?_iff, hslots]
    exact ⟨_, rfl, List.mem_singleton_self _⟩

end Tree

end TreeLint
