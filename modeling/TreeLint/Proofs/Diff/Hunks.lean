/-
TreeLint/Proofs/Diff/Hunks.lean

Which changes of a script share a range.

Places of changes that follow each other closely form a *block* (`blocks`), and
the ranges of a script are the blocks with the lines around them
(`ranges_eq_map_hull`): joining ranges that touch breaks the row of changes
exactly where two neighbours are more than six unchanged lines apart.  From then
on only blocks matter.  They are far from each other (`blocks_pairwise`), and two
changes are in one block when a row of close neighbours leads from one to the
other (`exists_block_iff_linked`).  The lines around a block do not reach the
changes of another, so what is said of blocks holds for ranges.
-/
import TreeLint.Proofs.Diff.Script
import TreeLint.Diff.Patch
import Mathlib.Data.List.SplitBy
import Mathlib.Logic.Relation

namespace TreeLint.Diff

variable {α : Type} {s : List (Edit α)} {e : Edit α} {b : List Nat} {i j k n place : Nat}

/-- Of two entries of a list in which earlier ones are related to later ones, one is related to the
other. -/
theorem rel_or_rel_of_pairwise {β : Type} {R : β → β → Prop} {l : List β} {x y : β}
    (h : l.Pairwise R) (hx : x ∈ l) (hy : y ∈ l) (hne : x ≠ y) : R x y ∨ R y x := by
  have : Std.Symm fun x y => R x y ∨ R y x := ⟨fun _ _ => Or.symm⟩
  have hor : l.Pairwise fun x y => R x y ∨ R y x := h.imp Or.inl
  exact hor.forall hx hy hne

/-! ### Changes -/

/-- The entry at a place of a script is not kept. -/
def IsChange (s : List (Edit α)) (i : Nat) : Prop := ∃ e, s[i]? = some e ∧ e.isKept = false

theorem IsChange.lt_length (h : IsChange s i) : i < s.length := by
  obtain ⟨e, he, -⟩ := h
  exact (List.getElem?_eq_some_iff.mp he).1

theorem isChange_cons_zero : IsChange (e :: s) 0 ↔ e.isKept = false := by
  simp [IsChange]

theorem isChange_cons_succ : IsChange (e :: s) (i + 1) ↔ IsChange s i := by
  simp [IsChange]

theorem mem_changes_iff : i ∈ changes place s ↔ place ≤ i ∧ IsChange s (i - place) := by
  induction s generalizing place with
  | nil => simp [changes, IsChange]
  | cons e s ih =>
    have hstep : i ∈ changes place (e :: s) ↔
        i = place ∧ e.isKept = false ∨ i ∈ changes (place + 1) s := by
      rw [changes]
      cases e.isKept <;> simp
    rw [hstep, ih]
    rcases Nat.lt_trichotomy i place with hlt | rfl | hgt
    · simp [Nat.not_le_of_lt hlt, Nat.ne_of_lt hlt, Nat.not_le_of_lt (Nat.lt_succ_of_lt hlt)]
    · simp [isChange_cons_zero]
    · obtain ⟨d, rfl⟩ := Nat.exists_eq_add_of_lt hgt
      have hd : place + d + 1 - place = d + 1 := by omega
      have hd' : place + d + 1 - (place + 1) = d := by omega
      rw [hd, hd', isChange_cons_succ]
      simp only [Nat.le_add_right, true_and, Nat.add_assoc, Nat.add_le_add_iff_left]
      simp

@[simp] theorem mem_changes_zero_iff : i ∈ changes 0 s ↔ IsChange s i := by
  simp [mem_changes_iff]

theorem changes_pairwise (place : Nat) (s : List (Edit α)) :
    (changes place s).Pairwise (· < ·) := by
  induction s generalizing place with
  | nil => exact List.Pairwise.nil
  | cons e s ih =>
    rw [changes]
    split
    · exact ih _
    · exact List.pairwise_cons.mpr ⟨fun i hi => (mem_changes_iff.mp hi).1, ih _⟩

/-! ### Blocks -/

/-- At most six lines stand between two places, the first of them given first. -/
def near (i j : Nat) : Bool := j ≤ i + 7

/-- The places of the changes in a script, broken where neighbours are not near. -/
def blocks (s : List (Edit α)) : List (List Nat) := (changes 0 s).splitBy near

/-- A block of changes with the lines around it, in a script of `length` entries. -/
def hull (length : Nat) (b : List Nat) : Range :=
  ⟨b.headD 0 - 3, min (b.getLastD 0 + 4) length⟩

/-- Joining the ranges around changes breaks the row where neighbours are not near. -/
theorem joinRanges_map_around (hne : b ≠ []) (hb : b.IsChain (near · ·)) (cs : List Nat)
    (hlt : ∀ c ∈ b ++ cs, c < n) :
    joinRanges (hull n b) (cs.map (around n)) = ((b ++ cs).splitBy near).map (hull n) := by
  induction cs generalizing b with
  | nil => rw [List.append_nil, List.splitBy_of_isChain hne hb]; rfl
  | cons c cs ih =>
    obtain ⟨front, last, rfl⟩ := List.eq_nil_or_concat b |>.resolve_left hne
    rw [List.concat_eq_append] at *
    have hlast : last < n := hlt last (by simp)
    have hc : c < n := hlt c (by simp)
    have htouch : (around n c).start ≤ (hull n (front ++ [last])).stop ↔ near last c = true := by
      simp only [around, hull, context, List.getLastD_concat, near, decide_eq_true_eq]
      omega
    rw [List.map_cons, joinRanges]
    by_cases hnear : near last c = true
    · have hjoin : (⟨(hull n (front ++ [last])).start, (around n c).stop⟩ : Range)
          = hull n (front ++ [last] ++ [c]) := by
        simp only [hull, around, context, List.getLastD_concat]
        cases front <;> rfl
      rw [if_pos (htouch.mpr hnear), hjoin, ih (by simp), List.append_assoc _ [c] cs]
      · rfl
      · refine hb.append (List.isChain_singleton c) ?_
        simpa using hnear
      · simpa using hlt
    · have hstart : around n c = hull n [c] := rfl
      rw [if_neg (mt htouch.mp hnear), hstart,
        ih (List.cons_ne_nil c []) (List.isChain_singleton c) fun c' hc' =>
          hlt c' (List.mem_append_right _ hc'),
        List.splitBy_append_cons, List.splitBy_of_isChain hne hb]
      · rfl
      · simpa using hnear

/-- The ranges of a script are its blocks with the lines around them. -/
theorem ranges_eq_map_hull (s : List (Edit α)) : ranges s = (blocks s).map (hull s.length) := by
  rw [ranges, blocks]
  rcases hchanges : changes 0 s with - | ⟨c, cs⟩
  · rfl
  · refine joinRanges_map_around (List.cons_ne_nil c []) (List.isChain_singleton c) cs ?_
    intro i hi
    exact IsChange.lt_length (mem_changes_zero_iff.mp (hchanges ▸ hi))

/-- Every change is in a block, and nothing else. -/
theorem exists_mem_blocks_iff : (∃ b ∈ blocks s, i ∈ b) ↔ IsChange s i := by
  rw [← List.mem_flatten, blocks, List.flatten_splitBy, mem_changes_zero_iff]

theorem isChange_of_mem_blocks (hb : b ∈ blocks s) (hi : i ∈ b) : IsChange s i :=
  exists_mem_blocks_iff.mp ⟨b, hb, hi⟩

theorem ne_nil_of_mem_blocks (hb : b ∈ blocks s) : b ≠ [] := List.ne_nil_of_mem_splitBy hb

theorem pairwise_of_mem_blocks (hb : b ∈ blocks s) : b.Pairwise (· < ·) := by
  have h := changes_pairwise 0 s
  rw [← List.flatten_splitBy near (changes 0 s), List.pairwise_flatten] at h
  exact h.1 b hb

/-- A block goes from its first change to its last. -/
theorem exists_ends_of_mem_blocks (hb : b ∈ blocks s) :
    ∃ first ∈ b, ∃ last ∈ b, (∀ i ∈ b, first ≤ i ∧ i ≤ last) ∧
      (hull s.length b).start = first - 3 ∧ (hull s.length b).stop = min (last + 4) s.length := by
  have hne := ne_nil_of_mem_blocks hb
  have hsorted := (pairwise_of_mem_blocks hb).imp Nat.le_of_lt
  refine ⟨b.head hne, List.head_mem hne, b.getLast hne, List.getLast_mem hne, ?_, ?_, ?_⟩
  · exact fun i hi => ⟨hsorted.rel_head hi, hsorted.rel_getLast hi⟩
  · rw [hull, List.headD_eq_head?_getD, List.head?_eq_some_head hne, Option.getD_some]
  · rw [hull, List.getLastD_eq_getLast?, List.getLast?_eq_some_getLast hne, Option.getD_some]

/-- One block is far before another. -/
def Far (b b' : List Nat) : Prop := b' ≠ [] ∧ ∀ i ∈ b, ∀ j ∈ b', i + 7 < j

instance : Trans Far Far Far where
  trans := by
    rintro b b' b'' ⟨hne, h⟩ ⟨hne', h'⟩
    refine ⟨hne', fun i hi j hj => ?_⟩
    obtain ⟨k, hk⟩ := List.exists_mem_of_ne_nil b' hne
    have := h i hi k hk
    have := h' k hk j hj
    omega

theorem blocks_pairwise (s : List (Edit α)) : (blocks s).Pairwise Far := by
  refine List.IsChain.pairwise ?_
  refine (List.isChain_getLast_head_splitBy near (changes 0 s)).imp_of_mem_imp ?_
  rintro b b' hb hb' ⟨hne, hne', hfar⟩
  refine ⟨hne', fun i hi j hj => ?_⟩
  have hi := ((pairwise_of_mem_blocks hb).imp Nat.le_of_lt).rel_getLast hi
  have hj := ((pairwise_of_mem_blocks hb').imp Nat.le_of_lt).rel_head hj
  rw [near, decide_eq_false_iff_not] at hfar
  omega

theorem far_or_far {b' : List Nat} (hb : b ∈ blocks s) (hb' : b' ∈ blocks s) (hne : b ≠ b') :
    Far b b' ∨ Far b' b :=
  rel_or_rel_of_pairwise (blocks_pairwise s) hb hb' hne

/-- Places that are not far apart are in no two blocks. -/
theorem eq_of_mem_blocks {b' : List Nat} (hb : b ∈ blocks s) (hb' : b' ∈ blocks s) (hi : i ∈ b)
    (hj : j ∈ b') (hij : i ≤ j + 7) (hji : j ≤ i + 7) : b = b' := by
  by_contra hne
  rcases far_or_far hb hb' hne with ⟨-, h⟩ | ⟨-, h⟩
  · exact absurd (h i hi j hj) (Nat.not_lt_of_le hji)
  · exact absurd (h j hj i hi) (Nat.not_lt_of_le hij)

/-! ### Linked changes -/

/-- Two changes follow each other, with at most six lines in between. -/
structure Next (s : List (Edit α)) (i j : Nat) : Prop where
  lt : i < j
  left : IsChange s i
  right : IsChange s j
  between : ∀ k, i < k → k < j → ¬IsChange s k
  near : j - i - 1 ≤ 6

/-- A row of neighbours leads from one place to the other. -/
def Linked (s : List (Edit α)) : Nat → Nat → Prop := Relation.EqvGen (Next s)

instance : Std.Symm (Linked s) := ⟨Relation.EqvGen.symm⟩

instance : Trans (Linked s) (Linked s) (Linked s) := ⟨Relation.EqvGen.trans _ _ _⟩

/-- In a row that ascends, nothing stands between neighbours. -/
theorem neighbours_of_pairwise {before after : List Nat}
    (h : (before ++ i :: j :: after).Pairwise (· < ·)) :
    i < j ∧ ∀ k ∈ before ++ i :: j :: after, k ≤ i ∨ j ≤ k := by
  obtain ⟨-, hrest, hbefore⟩ := List.pairwise_append.mp h
  obtain ⟨hi, hafter⟩ := List.pairwise_cons.mp hrest
  refine ⟨hi j List.mem_cons_self, fun k hk => ?_⟩
  rcases List.mem_append.mp hk with hk | hk
  · exact .inl (Nat.le_of_lt (hbefore k hk i List.mem_cons_self))
  · rcases List.mem_cons.mp hk with rfl | hk
    · exact .inl (Nat.le_refl k)
    · rcases List.mem_cons.mp hk with rfl | hk
      · exact .inr (Nat.le_refl k)
      · exact .inr (Nat.le_of_lt (List.rel_of_pairwise_cons hafter hk))

/-- The changes of a block follow each other. -/
theorem isChain_next_of_mem_blocks (hb : b ∈ blocks s) : b.IsChain (Next s) := by
  rw [List.isChain_iff_forall_rel_of_append_cons_cons]
  intro i j before after hsplit
  have hnear : near i j = true :=
    List.isChain_iff_forall_rel_of_append_cons_cons.mp (List.isChain_of_mem_splitBy hb) hsplit
  -- the block is a stretch of the row of all changes, so nothing stands between its neighbours
  obtain ⟨front, back, hall⟩ := List.infix_of_mem_flatten hb
  have hrow : changes 0 s = (front ++ before) ++ i :: j :: (after ++ back) := by
    rw [← List.flatten_splitBy near (changes 0 s), ← blocks, ← hall, hsplit]
    simp
  obtain ⟨hlt, hnone⟩ := neighbours_of_pairwise (hrow ▸ changes_pairwise 0 s)
  refine ⟨hlt, isChange_of_mem_blocks hb (by simp [hsplit]),
    isChange_of_mem_blocks hb (by simp [hsplit]), fun k hik hkj hk => ?_, ?_⟩
  · have := hnone k (hrow ▸ mem_changes_zero_iff.mpr hk)
    omega
  · rw [near, decide_eq_true_eq] at hnear
    omega

/-- Changes are in one block exactly when they are linked. -/
theorem exists_block_iff_linked (hi : IsChange s i) :
    (∃ b ∈ blocks s, i ∈ b ∧ j ∈ b) ↔ Linked s i j := by
  constructor
  · rintro ⟨b, hb, hib, hjb⟩
    have hlinked : b.Pairwise (Linked s) :=
      ((isChain_next_of_mem_blocks hb).imp fun i j => Relation.EqvGen.rel i j).pairwise
    exact hlinked.forall_of_forall (fun i _ => Relation.EqvGen.refl i) hib hjb
  · intro h
    have hsame : ∀ b ∈ blocks s, i ∈ b ↔ j ∈ b := by
      clear hi
      induction h with
      | rel i j h =>
        obtain ⟨b, hb, hib⟩ := exists_mem_blocks_iff.mpr h.left
        obtain ⟨b', hb', hjb⟩ := exists_mem_blocks_iff.mpr h.right
        have hlt := h.lt
        have hnear := h.near
        obtain rfl := eq_of_mem_blocks hb hb' hib hjb (by omega) (by omega)
        intro c hc
        constructor
        · intro hic
          rwa [eq_of_mem_blocks hc hb hic hib (by omega) (by omega)]
        · intro hjc
          rwa [eq_of_mem_blocks hc hb hjc hjb (by omega) (by omega)]
      | refl i => exact fun _ _ => Iff.rfl
      | symm i j _ ih => exact fun b hb => (ih b hb).symm
      | trans i j k _ _ ih ih' => exact fun b hb => (ih b hb).trans (ih' b hb)
    obtain ⟨b, hb, hib⟩ := exists_mem_blocks_iff.mpr hi
    exact ⟨b, hb, hib, (hsame b hb).mp hib⟩

/-! ### Ranges -/

/-- The range has a place. -/
def Range.Has (r : Range) (i : Nat) : Prop := r.start ≤ i ∧ i < r.stop

variable {r : Range}

/-- A range has the changes of its block and no others. -/
theorem has_hull_iff (hb : b ∈ blocks s) (hi : IsChange s i) :
    (hull s.length b).Has i ↔ i ∈ b := by
  obtain ⟨first, hfirst, last, hlast, hends, hstart, hstop⟩ := exists_ends_of_mem_blocks hb
  have hlt := hi.lt_length
  rw [Range.Has, hstart, hstop]
  constructor
  · intro hhas
    obtain ⟨b', hb', hib'⟩ := exists_mem_blocks_iff.mpr hi
    by_cases hsame : b = b'
    · rwa [hsame]
    · -- the place would be more than seven beyond an end of the block
      rcases far_or_far hb hb' hsame with ⟨-, h⟩ | ⟨-, h⟩
      · have := h last hlast i hib'
        omega
      · have := h i hib' first hfirst
        omega
  · intro hib
    have := hends i hib
    omega

theorem lt_of_mem_ranges (hr : r ∈ ranges s) : r.start < r.stop ∧ r.stop ≤ s.length := by
  rw [ranges_eq_map_hull] at hr
  obtain ⟨b, hb, rfl⟩ := List.mem_map.mp hr
  obtain ⟨first, hfirst, last, hlast, hends, hstart, hstop⟩ := exists_ends_of_mem_blocks hb
  have := (isChange_of_mem_blocks hb hlast).lt_length
  have := (hends first hfirst).2
  omega

/-- Ranges are in order, and some line stands between any two. -/
theorem ranges_pairwise (s : List (Edit α)) : (ranges s).Pairwise fun r r' => r.stop < r'.start := by
  rw [ranges_eq_map_hull, List.pairwise_map]
  refine (blocks_pairwise s).imp_of_mem ?_
  rintro b b' hb hb' ⟨-, hfar⟩
  obtain ⟨-, -, last, hlast, -, -, hstop⟩ := exists_ends_of_mem_blocks hb
  obtain ⟨first, hfirst, -, -, -, hstart, -⟩ := exists_ends_of_mem_blocks hb'
  have := hfar last hlast first hfirst
  omega

/-- Every change is in a range. -/
theorem exists_has_of_isChange (hi : IsChange s i) : ∃ r ∈ ranges s, r.Has i := by
  obtain ⟨b, hb, hib⟩ := exists_mem_blocks_iff.mpr hi
  rw [ranges_eq_map_hull]
  exact ⟨_, List.mem_map_of_mem hb, (has_hull_iff hb hi).mpr hib⟩

/-- Changes are in one range exactly when they are linked. -/
theorem exists_has_iff_linked (hi : IsChange s i) (hj : IsChange s j) :
    (∃ r ∈ ranges s, r.Has i ∧ r.Has j) ↔ Linked s i j := by
  rw [← exists_block_iff_linked hi, ranges_eq_map_hull]
  simp only [List.mem_map, exists_exists_and_eq_and]
  refine exists_congr fun b => and_congr_right fun hb => ?_
  rw [has_hull_iff hb hi, has_hull_iff hb hj]

/-- A range starts at most three lines before its first change and ends at most three lines
after its last. -/
theorem exists_ends_of_mem_ranges (hr : r ∈ ranges s) :
    ∃ first last, (IsChange s first ∧ r.Has first) ∧ (IsChange s last ∧ r.Has last) ∧
      (∀ i, IsChange s i → r.Has i → first ≤ i ∧ i ≤ last) ∧
      first ≤ r.start + 3 ∧ r.stop ≤ last + 4 := by
  rw [ranges_eq_map_hull] at hr
  obtain ⟨b, hb, rfl⟩ := List.mem_map.mp hr
  obtain ⟨first, hfirst, last, hlast, hends, hstart, hstop⟩ := exists_ends_of_mem_blocks hb
  have hchange := fun i hi => isChange_of_mem_blocks (i := i) hb hi
  refine ⟨first, last, ⟨hchange _ hfirst, (has_hull_iff hb (hchange _ hfirst)).mpr hfirst⟩,
    ⟨hchange _ hlast, (has_hull_iff hb (hchange _ hlast)).mpr hlast⟩, ?_, ?_⟩
  · exact fun i hi hhas => hends i ((has_hull_iff hb hi).mp hhas)
  · omega

end TreeLint.Diff
