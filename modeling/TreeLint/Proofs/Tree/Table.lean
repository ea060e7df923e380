/-
TreeLint/Proofs/Tree/Table.lean

What an accepted table of slots is like.

Acceptance makes the parent table the inverse of the child lists
(`Tree.parent?_eq_some_iff`), and leaves the root without a parent.  Both
facts together put every slot that the root reaches on one level only:
going up from it, step by step, is deterministic and ends at the root after
a fixed number of steps.  Three things follow.

* The way from the root to a slot never visits a slot twice, so it is
  shorter than the table, and `unfold` with the size of the table as its
  depth cuts nothing off (`Tree.slot_eq_of_below_top`).
* No slot occurs twice in the ordered tree (`Tree.nodup_preorder`).
* The elements of the ordered tree are exactly the slots that the root
  reaches (`Tree.reachable_iff`).
-/
import TreeLint.Proofs.Tree.Layout
import Mathlib.Data.Fintype.Card
import Mathlib.Data.List.Nodup

namespace TreeLint

namespace Tree

/-! ### What acceptance says -/

/-- What is known once the children of one slot have been adopted. -/
theorem adopt_ok {root p : NodeId} {cs : List NodeId} {parents parents' : ParentTable}
    (h : adopt root p cs parents = .ok parents') :
    parents'.size = parents.size ∧ cs.Nodup ∧ (∀ c ∈ cs, c ≠ root ∧ parents[c]? = some none) ∧
      ∀ i, parents'[i]? = if i ∈ cs then some (some p) else parents[i]? := by
  induction cs generalizing parents with
  | nil =>
    obtain rfl := Except.ok.inj h
    simp
  | cons c cs ih =>
    rw [adopt] at h
    split at h
    · cases h
    · rename_i owner hc
      split at h
      · cases h
      · rename_i hroot
        split at h
        · cases h
        · rename_i howner
          obtain rfl : owner = none := by simpa using howner
          obtain ⟨hsize, hnodup, hcs, hget⟩ := ih h
          have hset : ∀ i, (parents.setIfInBounds c (some p))[i]?
              = if i = c then some (some p) else parents[i]? := by
            intro i
            rw [Array.getElem?_setIfInBounds]
            have hlt : c < parents.size := (Array.getElem?_eq_some_iff.mp hc).1
            by_cases hi : c = i
            · subst hi
              simp [hlt]
            · rw [if_neg hi, if_neg (Ne.symm hi)]
          -- the first child has a parent now, so it cannot be adopted again
          have hcmem : c ∉ cs := by
            intro hmem
            have hnone := (hcs c hmem).2
            rw [hset, if_pos rfl] at hnone
            cases hnone
          refine ⟨by rw [hsize, Array.size_setIfInBounds], List.nodup_cons.mpr ⟨hcmem, hnodup⟩,
            ?_, ?_⟩
          · intro d hd
            rcases List.mem_cons.mp hd with rfl | hd
            · exact ⟨hroot, hc⟩
            · obtain ⟨hd1, hd2⟩ := hcs d hd
              rw [hset, if_neg (fun heq : d = c => hcmem (heq ▸ hd))] at hd2
              exact ⟨hd1, hd2⟩
          · intro i
            rw [hget, hset]
            by_cases hi : i = c
            · subst hi
              simp
            · simp [hi]

/-- What is known of a slot at `index` once it and those after it have been checked, `parents`
being the parents before and `parents'` those after. -/
structure Checked (root index : NodeId) (parents parents' : ParentTable) (s : Slot) : Prop where
  leaf : s.token.isSome = true → s.children = []
  nodup : s.children.Nodup
  ne_root : ∀ c ∈ s.children, c ≠ root
  vacant : ∀ c ∈ s.children, parents[c]? = some none
  adopted : ∀ c ∈ s.children, parents'[c]? = some (some index)

/-- What is known once all slots from `index` on have been checked. -/
theorem adoptAll_ok {root index : NodeId} {slots : List Slot} {parents parents' : ParentTable}
    (h : adoptAll root index slots parents = .ok parents') :
    parents'.size = parents.size ∧
      (∀ j s, slots[j]? = some s → Checked root (index + j) parents parents' s) ∧
      (∀ i p : NodeId, parents[i]? = some (some p) → parents'[i]? = some (some p)) ∧
      ∀ i p : NodeId, parents'[i]? = some (some p) →
        parents[i]? = some (some p) ∨ ∃ j s, slots[j]? = some s ∧ p = index + j ∧ i ∈ s.children := by
  induction slots generalizing index parents with
  | nil =>
    obtain rfl := Except.ok.inj h
    refine ⟨rfl, ?_, fun _ _ h => h, fun _ _ h => .inl h⟩
    intro j s hj
    simp at hj
  | cons s slots ih =>
    rw [adoptAll] at h
    split at h
    · cases h
    · rename_i hleaf
      split at h
      · cases h
      · rename_i between hs
        obtain ⟨hsize₁, hnodup, hcs, hget⟩ := adopt_ok hs
        obtain ⟨hsize₂, hrest, hkeep, hfrom⟩ := ih h
        refine ⟨hsize₂.trans hsize₁, ?_, ?_, ?_⟩
        · intro j s' hj
          cases j with
          | zero =>
            obtain rfl := Option.some.inj (List.getElem?_cons_zero ▸ hj)
            refine ⟨?_, hnodup, fun c hc => (hcs c hc).1, fun c hc => (hcs c hc).2, ?_⟩
            · intro htoken
              simpa [htoken] using hleaf
            · intro c hc
              apply hkeep
              rw [hget, if_pos hc, Nat.add_zero]
          | succ j =>
            rw [List.getElem?_cons_succ] at hj
            have hj' := hrest j s' hj
            refine ⟨hj'.leaf, hj'.nodup, hj'.ne_root, ?_, ?_⟩
            · -- a slot without a parent afterwards had none before
              intro c hc
              have hvacant := hj'.vacant c hc
              rw [hget] at hvacant
              split at hvacant
              · cases hvacant
              · exact hvacant
            · intro c hc
              rw [hj'.adopted c hc, Nat.add_right_comm, Nat.add_assoc]
        · -- a slot that has a parent is not adopted once more
          intro i p hi
          apply hkeep
          rw [hget, if_neg, hi]
          intro hmem
          rw [(hcs i hmem).2] at hi
          cases hi
        · -- a new parent comes from this slot or from one behind it
          intro i p hi
          rcases hfrom i p hi with hi | ⟨j, s', hj, rfl, hmem⟩
          · rw [hget] at hi
            split at hi
            · rename_i hmem
              obtain rfl : index = p := by simpa using hi
              exact .inr ⟨0, s, rfl, rfl, hmem⟩
            · exact .inl hi
          · exact .inr ⟨j + 1, s', hj, by rw [Nat.add_right_comm, Nat.add_assoc], hmem⟩

/-! ### What is enough for acceptance -/

/-- Different children without a parent, none of them the root, can be adopted. -/
theorem exists_adopt_eq_ok {root p : NodeId} {cs : List NodeId} {parents : ParentTable}
    (hnodup : cs.Nodup) (hcs : ∀ c ∈ cs, c ≠ root ∧ parents[c]? = some none) :
    ∃ parents', adopt root p cs parents = .ok parents' := by
  induction cs generalizing parents with
  | nil => exact ⟨parents, rfl⟩
  | cons c cs ih =>
    obtain ⟨hmem, hnodup⟩ := List.nodup_cons.mp hnodup
    obtain ⟨hroot, hc⟩ := hcs c List.mem_cons_self
    have hrest : ∀ d ∈ cs, d ≠ root ∧ (parents.setIfInBounds c (some p))[d]? = some none := by
      intro d hd
      obtain ⟨hd1, hd2⟩ := hcs d (List.mem_cons_of_mem c hd)
      refine ⟨hd1, ?_⟩
      rw [Array.getElem?_setIfInBounds_ne (fun h : c = d => hmem (h ▸ hd)), hd2]
    obtain ⟨parents', h⟩ := ih hnodup hrest
    refine ⟨parents', ?_⟩
    rw [adopt, hc]
    simpa [hroot] using h

/-- Slots of which no token has children, and whose children are all different, without a parent
and not the root, pass the check. -/
theorem exists_adoptAll_eq_ok {root index : NodeId} {slots : List Slot} {parents : ParentTable}
    (hleaf : ∀ s ∈ slots, s.token.isSome = true → s.children = [])
    (hnodup : (slots.flatMap (·.children)).Nodup)
    (hcs : ∀ c ∈ slots.flatMap (·.children), c ≠ root ∧ parents[c]? = some none) :
    ∃ parents', adoptAll root index slots parents = .ok parents' := by
  induction slots generalizing index parents with
  | nil => exact ⟨parents, rfl⟩
  | cons s slots ih =>
    rw [List.flatMap_cons] at hnodup hcs
    obtain ⟨hs, hslots, hdisjoint⟩ := List.nodup_append.mp hnodup
    obtain ⟨between, hbetween⟩ := exists_adopt_eq_ok (p := index) hs
      (fun c hc => hcs c (List.mem_append_left _ hc))
    have hvacant : ∀ c ∈ slots.flatMap (·.children), c ≠ root ∧ between[c]? = some none := by
      intro c hc
      obtain ⟨hroot, hvacant⟩ := hcs c (List.mem_append_right _ hc)
      refine ⟨hroot, ?_⟩
      rw [(adopt_ok hbetween).2.2.2, if_neg (fun hmem => hdisjoint c hmem c hc rfl), hvacant]
    obtain ⟨parents', h⟩ : ∃ parents', adoptAll root (index + 1) slots between = .ok parents' :=
      ih (fun r hr => hleaf r (List.mem_cons_of_mem s hr)) hslots hvacant
    refine ⟨parents', ?_⟩
    rw [adoptAll, if_neg, hbetween]
    · exact h
    · have := hleaf s List.mem_cons_self
      rcases hs : s.token with - | tok
      · simp
      · simp [this (by rw [hs]; rfl)]

/-! ### Trees and their tables -/

/-- A tree is determined by its table and its root. -/
theorem ofSlots_slots (t : Tree) : ofSlots t.slots t.root = .ok t := by
  obtain ⟨slots, root, parents, top, haccepted, rfl⟩ := t
  show ofSlots slots root = _
  rw [ofSlots]
  split
  · rename_i heq
    rw [haccepted] at heq
    cases heq
  · rename_i heq
    rw [haccepted] at heq
    obtain rfl := Except.ok.inj heq
    rfl

theorem slots_of_ofSlots {slots : Array Slot} {root : NodeId} {t : Tree}
    (h : ofSlots slots root = .ok t) : t.slots = slots ∧ t.root = root := by
  rw [ofSlots] at h
  split at h
  · cases h
  · obtain rfl := Except.ok.inj h
    exact ⟨rfl, rfl⟩

variable (t : Tree)

theorem root_lt : t.root < t.size := by
  have h := t.accepted
  rw [parentTable] at h
  split at h
  · cases h
  · rename_i hlt
    exact Nat.lt_of_not_le hlt

theorem adoptAll_slots :
    adoptAll t.root 0 t.slots.toList (Array.replicate t.size none) = .ok t.parents := by
  have h := t.accepted
  rw [parentTable] at h
  split at h
  · cases h
  · exact h

theorem getElem?_replicate_none_ne {n : Nat} {i : NodeId} {p : NodeId} :
    (Array.replicate n (none : Option NodeId))[i]? ≠ some (some p) := by
  rw [Array.getElem?_replicate]
  split <;> simp

variable {t} {c p : NodeId} {s : Slot}

theorem checked (h : t.slots[p]? = some s) :
    Checked t.root p (Array.replicate t.size none) t.parents s := by
  have hchecked := (adoptAll_ok t.adoptAll_slots).2.1 p s (by rwa [Array.getElem?_toList])
  rwa [Nat.zero_add] at hchecked

/-- A slot has the parent whose child it is. -/
theorem parent?_eq_some_iff :
    t.parent? c = some p ↔ ∃ s, t.slots[p]? = some s ∧ c ∈ s.children := by
  rw [parent?, Option.join_eq_some_iff]
  constructor
  · intro h
    rcases (adoptAll_ok t.adoptAll_slots).2.2.2 c p h with h | ⟨j, s, hj, rfl, hc⟩
    · exact absurd h getElem?_replicate_none_ne
    · rw [Nat.zero_add]
      exact ⟨s, by rwa [Array.getElem?_toList] at hj, hc⟩
  · rintro ⟨s, hs, hc⟩
    exact (checked hs).adopted c hc

/-- Nothing has the root for a child. -/
theorem parent?_root : t.parent? t.root = none := by
  rcases h : t.parent? t.root with - | p
  · rfl
  · obtain ⟨s, hs, hc⟩ := parent?_eq_some_iff.mp h
    exact absurd rfl ((checked hs).ne_root _ hc)

theorem child_lt (hs : t.slots[p]? = some s) (hc : c ∈ s.children) : c < t.size := by
  have h := (checked hs).vacant c hc
  rw [Array.getElem?_replicate] at h
  split at h
  · assumption
  · cases h

/-! ### Going up -/

variable (t) in
/-- The slot that lies `n` steps above a slot. -/
def up : (n : Nat) → NodeId → Option NodeId
  | 0, id => some id
  | n + 1, id => (t.parent? id).bind (up n)

theorem up_add (m n : Nat) (id : NodeId) : t.up (m + n) id = (t.up m id).bind (t.up n) := by
  induction m generalizing id with
  | zero => rw [Nat.zero_add]; rfl
  | succ m ih =>
    rw [Nat.add_right_comm, up, up]
    rcases t.parent? id with - | p
    · rfl
    · exact ih p

theorem up_root (n : Nat) : t.up (n + 1) t.root = none := by
  rw [up, parent?_root, Option.bind_none]

/-- A slot is on one level only. -/
theorem level_unique {m n : Nat} {id : NodeId} (hm : t.up m id = some t.root)
    (hn : t.up n id = some t.root) : m = n := by
  have key : ∀ {a b : Nat}, a < b → t.up a id = some t.root → t.up b id ≠ some t.root := by
    intro a b hab ha hb
    obtain ⟨k, rfl⟩ : ∃ k, b = a + (k + 1) := ⟨b - a - 1, by omega⟩
    rw [up_add, ha, Option.bind_some, up_root] at hb
    cases hb
  rcases Nat.lt_trichotomy m n with h | h | h
  · exact absurd hn (key h hm)
  · exact h
  · exact absurd hm (key h hn)

/-- The way up from a slot to the root is shorter than the table. -/
theorem level_lt_size {n : Nat} {id : NodeId} (hid : id < t.size)
    (hn : t.up n id = some t.root) : n < t.size := by
  -- the slots on the way up are different, because they are on different levels
  have hsome : ∀ k : Fin (n + 1), ∃ a : Fin t.size, t.up k id = some a.val := by
    rintro ⟨k, hk⟩
    obtain ⟨j, rfl⟩ : ∃ j, n = k + j := ⟨n - k, by omega⟩
    rw [up_add] at hn
    obtain ⟨a, ha, -⟩ := Option.bind_eq_some_iff.mp hn
    refine ⟨⟨a, ?_⟩, ha⟩
    cases k with
    | zero =>
      obtain rfl := Option.some.inj ha
      exact hid
    | succ k =>
      rw [up_add] at ha
      obtain ⟨b, -, hb⟩ := Option.bind_eq_some_iff.mp ha
      rw [up] at hb
      obtain ⟨p, hp, hpa⟩ := Option.bind_eq_some_iff.mp hb
      obtain rfl := Option.some.inj hpa
      obtain ⟨s, hs, -⟩ := parent?_eq_some_iff.mp hp
      exact (Array.getElem?_eq_some_iff.mp hs).1
  choose f hf using hsome
  have hinj : Function.Injective f := by
    intro a b hab
    have hlevel : ∀ k : Fin (n + 1), t.up (n - k) (f k) = some t.root := by
      intro k
      have hk : n = k + (n - k) := by omega
      rw [hk, up_add, hf k, Option.bind_some] at hn
      exact hn
    have ha := hlevel a
    rw [hab] at ha
    have := level_unique ha (hlevel b)
    exact Fin.ext (by omega)
  have hcard := Fintype.card_le_of_injective f hinj
  rw [Fintype.card_fin, Fintype.card_fin] at hcard
  exact hcard

end Tree

/-! ### Elements and their slots -/

namespace Element

/-- The slot that an element stands for. -/
def slot (e : Element) : Slot := ⟨e.kind, e.children.map id, e.token?⟩

@[simp] theorem slot_place (o : Nat) (e : Element) : (e.place o).slot = e.slot := by
  rw [slot, slot, kind_place, token?_place, children_place, map_placeAll fun c _ o => id_place o c]

theorem mem_placeAll {o : Nat} {cs : List Element} {c : Element} (h : c ∈ placeAll o cs) :
    ∃ d ∈ cs, ∃ o', c = d.place o' := by
  induction cs generalizing o with
  | nil => cases h
  | cons d cs ih =>
    rw [placeAll] at h
    rcases List.mem_cons.mp h with rfl | h
    · exact ⟨d, List.mem_cons_self, o, rfl⟩
    · obtain ⟨d', hd', o', rfl⟩ := ih h
      exact ⟨d', List.mem_cons_of_mem d hd', o', rfl⟩

/-- What lies in a placed copy is a placed copy. -/
theorem below_place {o : Nat} {e x : Element} (h : Below (e.place o) x) :
    ∃ y o', Below e y ∧ x = y.place o' := by
  generalize he : e.place o = e' at h
  induction h generalizing e o with
  | refl => exact ⟨e, o, .refl e, he.symm⟩
  | child hc _ ih =>
    rw [← he, children_place] at hc
    obtain ⟨d, hd, o', hd'⟩ := mem_placeAll hc
    obtain ⟨y, o'', hy, hx⟩ := ih hd'.symm
    exact ⟨y, o'', .child hd hy, hx⟩

end Element

namespace Tree

open Element

variable {t : Tree}

variable (t) in
/-- Every element in `e` stands for the slot whose number it carries. -/
def Fits (e : Element) : Prop := ∀ x, Below e x → t.slots[x.id]? = some x.slot

theorem Fits.child {e c : Element} (h : t.Fits e) (hc : c ∈ e.children) : t.Fits c :=
  fun x hx => h x (.child hc hx)

theorem Fits.parent? {e c : Element} (h : t.Fits e) (hc : c ∈ e.children) :
    t.parent? c.id = some e.id :=
  parent?_eq_some_iff.mpr ⟨e.slot, h e (.refl e), List.mem_map_of_mem hc⟩

/-- Going up from an element, one comes to every element it lies in. -/
theorem Fits.exists_up {e x : Element} (h : t.Fits e) (hx : Below e x) :
    ∃ k, t.up k x.id = some e.id := by
  induction hx with
  | refl => exact ⟨0, rfl⟩
  | child hc _ ih =>
    obtain ⟨k, hk⟩ := ih (h.child hc)
    refine ⟨k + 1, ?_⟩
    rw [up_add, hk, Option.bind_some, up, h.parent? hc]
    rfl

theorem id_unfold (slots : Array Slot) (depth : Nat) (id : NodeId) :
    (unfold slots depth id).id = id := by
  cases depth with
  | zero => rfl
  | succ depth =>
    rw [unfold]
    split
    · rfl
    · split <;> rfl

/-- Unfolding to a depth that reaches past the longest way up cuts nothing off. -/
theorem fits_unfold {depth n : Nat} {id : NodeId} (hid : id < t.size)
    (hn : t.up n id = some t.root) (hdepth : n + depth = t.size) :
    t.Fits (unfold t.slots depth id) := by
  induction depth generalizing n id with
  | zero =>
    have := level_lt_size hid hn
    omega
  | succ depth ih =>
    have hs : t.slots[id]? = some t.slots[id] := Array.getElem?_eq_getElem hid
    generalize t.slots[id] = s at hs
    intro x hx
    rw [unfold, hs] at hx
    simp only at hx
    rcases htoken : s.token with - | tok
    · rw [htoken] at hx
      cases hx with
      | refl =>
        have hids : (s.children.map (unfold t.slots depth)).map Element.id = s.children := by
          rw [List.map_map]
          exact (List.map_congr_left fun c _ => id_unfold _ _ c).trans (List.map_id _)
        show t.slots[id]? = some ⟨s.kind, _, none⟩
        rw [hs, children_node, hids, ← htoken]
      | child hc hx =>
        obtain ⟨c, hcs, rfl⟩ := List.mem_map.mp hc
        -- a child is one step further from the root, and one less step remains
        have hparent : t.parent? c = some id := parent?_eq_some_iff.mpr ⟨s, hs, hcs⟩
        have hlevel : t.up (n + 1) c = some t.root := by
          rw [up, hparent]
          exact hn
        exact ih (child_lt hs hcs) hlevel (by omega) x hx
    · rw [htoken] at hx
      obtain rfl := hx.eq_of_isToken rfl
      have hleaf := (checked hs).leaf (by rw [htoken]; rfl)
      show t.slots[id]? = some ⟨s.kind, [], some tok⟩
      rw [hs, ← hleaf, ← htoken]

variable (t)

theorem id_top : t.top.id = t.root := by
  rw [t.top_eq, id_place, id_unfold]

theorem fits_top : t.Fits t.top := by
  intro x hx
  rw [t.top_eq] at hx
  obtain ⟨y, o, hy, rfl⟩ := below_place hx
  rw [id_place, slot_place]
  exact fits_unfold t.root_lt (show t.up 0 t.root = some t.root from rfl) (Nat.zero_add _) y hy

theorem placed_top : t.top.Placed := by
  rw [t.top_eq]
  exact placed_place _ _

theorem full_start_top : t.top.full.start = 0 := by
  rw [t.top_eq, full_place]

variable {t}

/-- An element of the ordered tree stands for the slot whose number it carries. -/
theorem slot_eq_of_below_top {x : Element} (h : Below t.top x) : t.slots[x.id]? = some x.slot :=
  t.fits_top x h

theorem lt_size_of_below_top {x : Element} (h : Below t.top x) : x.id < t.size :=
  (Array.getElem?_eq_some_iff.mp (slot_eq_of_below_top h)).1

/-! ### No slot occurs twice -/

theorem Fits.nodup_preorder {e : Element} (h : t.Fits e) {n : Nat}
    (hn : t.up n e.id = some t.root) : (e.preorder.map Element.id).Nodup := by
  induction e using Element.induction generalizing n with
  | token l tok => simp
  | node l cs ih =>
    have hlevel : ∀ c ∈ cs, t.up (n + 1) c.id = some t.root := by
      intro c hc
      rw [up, h.parent? (e := .node l cs) hc]
      exact hn
    rw [preorder_node, List.map_cons, List.map_flatMap, List.nodup_cons, List.nodup_flatMap]
    refine ⟨?_, fun c hc => ih c hc (h.child hc) (hlevel c hc), ?_⟩
    · -- a slot is not on a level below its own
      intro hmem
      obtain ⟨c, hc, hx⟩ := List.mem_flatMap.mp hmem
      obtain ⟨x, hx, hid⟩ := List.mem_map.mp hx
      obtain ⟨k, hk⟩ := (h.child hc).exists_up (mem_preorder_iff.mp hx)
      have hup : t.up (k + (n + 1)) l.id = some t.root := by
        rw [up_add, ← id_node l cs, ← hid, hk, Option.bind_some, hlevel c hc]
      have := level_unique hup hn
      omega
    · -- children are on one level, so the way up from a slot meets one of them only
      have hnodup : (cs.map Element.id).Nodup := (checked (h _ (.refl _))).nodup
      rw [List.Nodup, List.pairwise_map] at hnodup
      refine hnodup.imp_of_mem ?_
      intro c d hc hd hne i hic hid
      obtain ⟨x, hx, rfl⟩ := List.mem_map.mp hic
      obtain ⟨y, hy, hxy⟩ := List.mem_map.mp hid
      obtain ⟨k, hk⟩ := (h.child hc).exists_up (mem_preorder_iff.mp hx)
      obtain ⟨j, hj⟩ := (h.child hd).exists_up (mem_preorder_iff.mp hy)
      rw [hxy] at hj
      have hkn : t.up (k + (n + 1)) x.id = some t.root := by
        rw [up_add, hk, Option.bind_some, hlevel c hc]
      have hjn : t.up (j + (n + 1)) x.id = some t.root := by
        rw [up_add, hj, Option.bind_some, hlevel d hd]
      obtain rfl : k = j := by
        have := level_unique hkn hjn
        omega
      exact hne (Option.some.inj (hk.symm.trans hj))

variable (t) in
theorem nodup_preorder : (t.top.preorder.map Element.id).Nodup :=
  t.fits_top.nodup_preorder (show t.up 0 t.top.id = some t.root by rw [id_top]; rfl)

/-- Two elements of the ordered tree with the same number are one. -/
theorem eq_of_id_eq {x y : Element} (hx : Below t.top x) (hy : Below t.top y)
    (h : x.id = y.id) : x = y :=
  List.inj_on_of_nodup_map t.nodup_preorder (mem_preorder_iff.mpr hx) (mem_preorder_iff.mpr hy) h

end Tree

namespace Element

theorem find?_eq (id : NodeId) (e : Element) :
    e.find? id = e.preorder.find? fun x => decide (x.id = id) := by
  induction e using Element.induction with
  | token l t =>
    rw [find?, preorder_token, List.find?_singleton]
    by_cases h : l.id = id <;> simp [h]
  | node l cs ih =>
    rw [find?, preorder_node, findIn?_eq, List.find?_cons, List.find?_flatMap]
    have hcs : cs.findSome? (find? id)
        = cs.findSome? fun c => c.preorder.find? fun x => decide (x.id = id) := by
      clear * - ih
      induction cs with
      | nil => rfl
      | cons c cs ihcs =>
        rw [List.findSome?_cons, List.findSome?_cons, ih c List.mem_cons_self,
          ihcs fun d hd => ih d (List.mem_cons_of_mem c hd)]
    rw [hcs]
    by_cases h : l.id = id <;> simp [h]

end Element

namespace Tree

open Element

variable {t : Tree}

/-- Looking up the number of an element of the ordered tree gives the element. -/
theorem find?_top {x : Element} (h : Below t.top x) : t.top.find? x.id = some x := by
  rw [find?_eq]
  rcases hfind : t.top.preorder.find? (fun y => decide (y.id = x.id)) with - | y
  · rw [List.find?_eq_none] at hfind
    exact absurd (decide_eq_true rfl) (hfind x (mem_preorder_iff.mpr h))
  · have hid : y.id = x.id := by simpa using List.find?_some hfind
    rw [hfind, eq_of_id_eq (mem_preorder_iff.mp (List.mem_of_find?_eq_some hfind)) h hid]

theorem element?_of_below_top {x : Element} (h : Below t.top x) : t.element? x.id = some x := by
  rw [element?, if_pos (lt_size_of_below_top h), find?_top h]
  rfl

/-! ### Reachable slots -/

variable (t) in
/-- The slots that one comes to from the root by child lists. -/
inductive Reachable : NodeId → Prop
  | root : Reachable t.root
  | child {p c : NodeId} {s : Slot} :
      Reachable p → t.slots[p]? = some s → c ∈ s.children → Reachable c

/-- The reachable slots are those of the ordered tree. -/
theorem reachable_iff {id : NodeId} : t.Reachable id ↔ ∃ x, Below t.top x ∧ x.id = id := by
  constructor
  · intro h
    induction h with
    | root => exact ⟨t.top, .refl _, t.id_top⟩
    | child _ hs hc ih =>
      obtain ⟨x, hx, rfl⟩ := ih
      obtain rfl := Option.some.inj ((slot_eq_of_below_top hx).symm.trans hs)
      obtain ⟨d, hd, rfl⟩ := List.mem_map.mp hc
      exact ⟨d, hx.trans (.of_child hd), rfl⟩
  · rintro ⟨x, hx, rfl⟩
    have key : ∀ {e : Element}, Below e x → t.Fits e → t.Reachable e.id → t.Reachable x.id := by
      intro e h
      clear hx
      induction h with
      | refl => exact fun _ h => h
      | @child e c _ hc _ ih =>
        intro hfits he
        exact ih (hfits.child hc)
          (Reachable.child he (hfits e (.refl e)) (List.mem_map_of_mem hc))
    refine key hx t.fits_top ?_
    rw [id_top]
    exact .root

end Tree

end TreeLint
