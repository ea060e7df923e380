/-
TreeLint/Proofs/Tree/Tracing.lean

Tracing an element through a revision.

A revision that says nothing of an element and of what the element lies in
leaves the way down to it as it was.  So the element can be found again in every
element that has the revised shape, in the same place as long as nothing before
it has changed.  To revise the found element there is then to revise more of
the original one (`Revision.exists_trace`); this is how revisions that are
carried out one after the other add up to one.
-/
import TreeLint.Proofs.Tree.Lookup
import TreeLint.Proofs.Tree.Rewriting

namespace TreeLint

namespace Element

/-! ### Different numbers -/

/-- No number occurs twice in the element. -/
def Distinct (e : Element) : Prop := (e.preorder.map id).Nodup

namespace Distinct

variable {e c d x z : Element} {pre post : List Element}

theorem flatMap_children (h : e.Distinct) (he : e.isToken = false) :
    e.id ∉ (e.children.flatMap preorder).map id ∧ ((e.children.flatMap preorder).map id).Nodup := by
  rw [Distinct, eq_node he, preorder_node, List.map_cons, List.nodup_cons] at h
  exact h

theorem child (h : e.Distinct) (hc : c ∈ e.children) : c.Distinct := by
  have hcs := (h.flatMap_children (isToken_of_mem_children hc)).2
  rw [List.map_flatMap, List.nodup_flatMap] at hcs
  exact hcs.1 c hc

theorem below (h : e.Distinct) (hx : Below e x) : x.Distinct := by
  induction hx with
  | refl => exact h
  | child hc _ ih => exact ih (h.child hc)

theorem id_ne_of_child (h : e.Distinct) (hc : c ∈ e.children) (hx : Below c x) :
    x.id ≠ e.id := by
  intro hid
  apply (h.flatMap_children (isToken_of_mem_children hc)).1
  rw [← hid]
  exact List.mem_map_of_mem (List.mem_flatMap.mpr ⟨c, hc, mem_preorder_iff.mpr hx⟩)

theorem id_ne_of_sibling (h : e.Distinct) (hcs : e.children = pre ++ c :: post)
    (hd : d ∈ pre ∨ d ∈ post) (hz : Below d z) (hx : Below c x) : z.id ≠ x.id := by
  have hc : c ∈ e.children := hcs ▸ List.mem_append_right _ List.mem_cons_self
  have hnodup := (h.flatMap_children (isToken_of_mem_children hc)).2
  have hzmem : z.id ∈ d.preorder.map id := List.mem_map_of_mem (mem_preorder_iff.mpr hz)
  have hxmem : x.id ∈ c.preorder.map id := List.mem_map_of_mem (mem_preorder_iff.mpr hx)
  rw [hcs, List.map_flatMap, List.nodup_flatMap, List.pairwise_append, List.pairwise_cons] at hnodup
  obtain ⟨-, -, ⟨hpost, -⟩, hpre⟩ := hnodup
  intro hid
  rcases hd with hd | hd
  · exact hpre d hd c List.mem_cons_self hzmem (hid ▸ hxmem)
  · exact hpost d hd hxmem (hid ▸ hzmem)

end Distinct

/-! ### Shapes of children -/

theorem of_shape_eq_token {e : Element} {k : Kind} {t : Token} (h : e.shape = .token k t) :
    e.isToken = true ∧ e.kind = k := by
  cases e with
  | token l t' =>
    rw [shape_token, Shape.token.injEq] at h
    exact ⟨rfl, h.1⟩
  | node l cs => rw [shape_node] at h; cases h

theorem of_shape_eq_node {e : Element} {k : Kind} {ss : List Shape} (h : e.shape = .node k ss) :
    e.isToken = false ∧ e.kind = k ∧ e.children.map shape = ss := by
  cases e with
  | token l t => rw [shape_token] at h; cases h
  | node l cs =>
    rw [shape_node, Shape.node.injEq] at h
    exact ⟨rfl, h⟩

theorem of_shape_eq {e f : Element} (h : f.shape = e.shape) :
    f.isToken = e.isToken ∧ f.kind = e.kind ∧ f.children.map shape = e.children.map shape := by
  cases e with
  | token l t =>
    cases f with
    | token l' t' => exact ⟨rfl, (of_shape_eq_token h).2, rfl⟩
    | node l' cs' => rw [shape_token, shape_node] at h; cases h
  | node l cs =>
    rw [shape_node] at h
    exact of_shape_eq_node h

theorem fullTextAll_eq_of_shapes {cs ds : List Element} (h : cs.map shape = ds.map shape) :
    fullTextAll cs = fullTextAll ds := by
  rw [← fullTextAll_map_shape fun c _ => c.fullText_shape, h,
    fullTextAll_map_shape fun c _ => c.fullText_shape]

/-- A child can be found again among children whose shapes are given by a function of it. -/
theorem exists_split {φ : Element → Shape} {cs ds pre post : List Element} {c : Element}
    (h : ds.map shape = cs.map φ) (hcs : cs = pre ++ c :: post) :
    ∃ pre' d post', ds = pre' ++ d :: post' ∧ pre'.map shape = pre.map φ ∧ d.shape = φ c ∧
      post'.map shape = post.map φ := by
  rw [hcs, List.map_append, List.map_cons] at h
  obtain ⟨pre', rest, rfl, hpre, hrest⟩ := List.map_eq_append_iff.mp h
  obtain ⟨d, post', rfl, hd, hpost⟩ := List.map_eq_cons_iff.mp hrest
  exact ⟨pre', d, post', rfl, hpre, hd, hpost⟩

/-- A function that agrees on each child and what became of it agrees on all of them. -/
theorem map_eq_of_map_shape_eq {α : Type} {φ : Element → Shape} {p : Element → α}
    {cs ds : List Element} (h : ds.map shape = cs.map φ)
    (hp : ∀ c ∈ cs, ∀ d, d.shape = φ c → p d = p c) : ds.map p = cs.map p := by
  induction cs generalizing ds with
  | nil =>
    rw [List.map_nil, List.map_eq_nil_iff] at h
    rw [h]
  | cons c cs ih =>
    obtain ⟨d, ds, rfl, hd, hds⟩ := List.map_eq_cons_iff.mp h
    rw [List.map_cons, List.map_cons, hp c List.mem_cons_self d hd,
      ih hds fun x hx => hp x (List.mem_cons_of_mem c hx)]

end Element

namespace Tree

theorem distinct_top (t : Tree) : t.top.Distinct := t.nodup_preorder

end Tree

namespace Revision

open Element

variable {r : Revision}

/-! ### Where a revision says nothing -/

/-- The revision says nothing of an element. -/
def Silent (r : Revision) (id : NodeId) : Prop := r.replacement? id = none ∧ r.insertions id = []

theorem revise_of_silent {e : Element} (h : ∀ x, Below e x → r.Silent x.id) :
    r.revise e = e.shape := by
  rw [← revise_empty]
  exact revise_congr h

theorem revise_token_of_silent {e : Element} (he : e.isToken = true) (h : r.Silent e.id) :
    r.revise e = e.shape :=
  revise_of_silent fun _ hx => hx.eq_of_isToken he ▸ h

theorem map_revise_of_silent {cs : List Element} (h : ∀ c ∈ cs, ∀ x, Below c x → r.Silent x.id) :
    cs.map r.revise = cs.map shape :=
  List.map_congr_left fun c hc => revise_of_silent (h c hc)

theorem reviseAll_of_insertions_eq_nil {parent : NodeId} (h : r.insertions parent = [])
    (index : Nat) (cs : List Element) : r.reviseAll parent index cs = cs.map r.revise := by
  have hnone : ∀ p, r.fragments parent p = [] := by
    intro p
    rw [fragments, h]
    rfl
  induction cs generalizing index with
  | nil => rw [reviseAll, hnone]; rfl
  | cons c cs ih => rw [reviseAll, hnone, ih]; rfl

/-- A node of which nothing is said keeps its kind and the places of its children. -/
theorem revise_node_of_silent {e : Element} (he : e.isToken = false) (h : r.Silent e.id) :
    r.revise e = .node e.kind (e.children.map r.revise) := by
  cases e with
  | token l t => cases he
  | node l cs =>
    obtain ⟨hreplacement, hinsertions⟩ : r.replacement? l.id = none ∧ r.insertions l.id = [] := h
    rw [revise_node hreplacement, reviseAll_of_insertions_eq_nil hinsertions, kind_node,
      children_node]

theorem fragments_of_insertions_eq {parent : NodeId} {k : Nat} {ss : List Shape}
    (h : r.insertions parent = ss.map fun s => (k, s)) (p : Nat → Bool) :
    r.fragments parent p = if p k then ss else [] := by
  rw [fragments, h, List.filter_map, List.map_map]
  show (ss.filter fun _ => p k).map (fun s => s) = _
  rw [List.map_id']
  split
  · rename_i hp
    exact List.filter_eq_self.mpr fun _ _ => hp
  · rename_i hp
    exact List.filter_eq_nil_iff.mpr fun _ _ => hp

/-- Past the child before which all is inserted, nothing is left to insert. -/
theorem reviseAll_of_lt {parent : NodeId} {k index : Nat} {ss : List Shape}
    (h : r.insertions parent = ss.map fun s => (k, s)) (hk : k < index) (cs : List Element) :
    r.reviseAll parent index cs = cs.map r.revise := by
  induction cs generalizing index with
  | nil =>
    rw [reviseAll, fragments_of_insertions_eq h, if_neg (by simpa using hk)]
    rfl
  | cons c cs ih =>
    rw [reviseAll, fragments_of_insertions_eq h, if_neg (by simpa using Nat.ne_of_lt hk),
      ih (Nat.lt_succ_of_lt hk)]
    rfl

/-- Shapes that are all inserted at the same place stand there. -/
theorem reviseAll_of_insertions_eq {parent : NodeId} {pre post : List Element}
    {k index : Nat} {ss : List Shape} (h : r.insertions parent = ss.map fun s => (k, s))
    (hk : k = index + pre.length) :
    r.reviseAll parent index (pre ++ post)
      = pre.map r.revise ++ (ss ++ post.map r.revise) := by
  induction pre generalizing index with
  | nil =>
    obtain rfl : k = index := hk
    cases post with
    | nil =>
      rw [List.nil_append, reviseAll, fragments_of_insertions_eq h,
        if_pos (decide_eq_true (Nat.le_refl k))]
      exact (List.append_nil ss).symm
    | cons c post =>
      rw [List.nil_append, reviseAll, fragments_of_insertions_eq h, if_pos (beq_self_eq_true k),
        reviseAll_of_lt h (Nat.lt_succ_self k)]
      rfl
  | cons d pre ih =>
    rw [List.length_cons] at hk
    rw [List.cons_append, reviseAll, fragments_of_insertions_eq h,
      if_neg (by rw [beq_iff_eq]; omega), ih (by omega)]
    rfl

/-- A node into which shapes are inserted at one place has them there. -/
theorem revise_of_insertions_eq {e : Element} {pre post : List Element} {ss : List Shape}
    (hnode : e.isToken = false) (h : r.replacement? e.id = none) (hcs : e.children = pre ++ post)
    (hss : r.insertions e.id = ss.map fun s => (pre.length, s)) :
    r.revise e = .node e.kind (pre.map r.revise ++ (ss ++ post.map r.revise)) := by
  cases e with
  | token l t => cases hnode
  | node l cs =>
    obtain rfl : cs = pre ++ post := hcs
    rw [id_node] at h hss
    rw [revise_node h, reviseAll_of_insertions_eq hss (Nat.zero_add _).symm, kind_node]

theorem revise_node_of_insertions_eq {e c : Element} {pre post : List Element} {ss : List Shape}
    (h : r.replacement? e.id = none) (hcs : e.children = pre ++ c :: post)
    (hss : r.insertions e.id = ss.map fun s => (pre.length, s)) :
    r.revise e = .node e.kind (pre.map r.revise ++ (ss ++ (c :: post).map r.revise)) :=
  revise_of_insertions_eq
    (isToken_of_mem_children (hcs ▸ List.mem_append_right pre List.mem_cons_self)) h hcs hss

/-! ### Saying more -/

/-- The revision that also puts `s` in the place of `target`. -/
def replace (r : Revision) (target : NodeId) (s : Shape) : Revision :=
  { r with replacement? := fun id => if id = target then some s else r.replacement? id }

/-- The revision that inserts `ss` into `parent`, all before the same child. -/
def insert (r : Revision) (parent : NodeId) (index : Nat) (ss : List Shape) : Revision :=
  { r with
    insertions := fun id => if id = parent then ss.map fun s => (index, s) else r.insertions id }

theorem replacement?_replace (r : Revision) (target : NodeId) (s : Shape) :
    (r.replace target s).replacement? target = some s := if_pos rfl

theorem insertions_insert (r : Revision) (parent : NodeId) (index : Nat) (ss : List Shape) :
    (r.insert parent index ss).insertions parent = ss.map fun s => (index, s) := if_pos rfl

theorem agree_replace {target id : NodeId} (s : Shape) (h : id ≠ target) :
    Agree (r.replace target s) r id := ⟨if_neg h, rfl⟩

theorem agree_insert {parent id : NodeId} (index : Nat) (ss : List Shape) (h : id ≠ parent) :
    Agree (r.insert parent index ss) r id := ⟨rfl, if_neg h⟩

/-! ### Tracing -/

/-- An element of which nothing is said, nor of what it lies in, can be found again in an element of
the revised shape: in the same place if nothing is said of what stands before it, and to revise the
found element is to revise more of the original one. -/
theorem exists_trace {e f x : Element} (hx : Below e x) (hshape : f.shape = r.revise e)
    (hsilent : ∀ z, Below e z → Below z x → r.Silent z.id) (he : e.Distinct) (hf : f.Distinct) :
    ∃ y, Below f y ∧ y.shape = r.revise x ∧
      (e.Placed → f.Placed → f.full.start = e.full.start →
        (∀ z, Below e z → z.full.stop ≤ x.full.start → r.Silent z.id) →
        y.full.start = x.full.start) ∧
      ∀ r' g : Revision, (∀ id, id ≠ x.id → Agree r' r id) → (∀ id, id ≠ y.id → g.Silent id) →
        g.revise y = r'.revise x → g.revise f = r'.revise e := by
  induction hx generalizing f with
  | refl e => exact ⟨f, .refl f, hshape, fun _ _ h _ => h, fun _ _ _ _ h => h⟩
  | @child e c x hc hx ih =>
    have henode := isToken_of_mem_children hc
    have hetop := hsilent e (.refl e) (.child hc hx)
    rw [revise_node_of_silent henode hetop] at hshape
    obtain ⟨hfnode, hfkind, hfcs⟩ := of_shape_eq_node hshape
    obtain ⟨pre, post, hcs⟩ := List.append_of_mem hc
    obtain ⟨pre', d, post', hds, hpre, hd, hpost⟩ := exists_split hfcs hcs
    have hdmem : d ∈ f.children := hds ▸ List.mem_append_right _ List.mem_cons_self
    obtain ⟨y, hy, hyshape, hplace, hmore⟩ := ih hd
      (fun z hz => hsilent z (.child hc hz)) (he.child hc) (hf.child hdmem)
    refine ⟨y, .child hdmem hy, hyshape, ?_, ?_⟩
    · intro heplaced hfplaced hstart hbefore
      -- nothing is said of the children before, so the two children start together
      have hquiet : ∀ z ∈ pre, ∀ w, Below z w → r.Silent w.id := by
        intro z hz w hw
        have hzmem : z ∈ e.children := hcs ▸ List.mem_append_left _ hz
        apply hbefore w (.child hzmem hw)
        have h1 := ((heplaced.child hzmem).full_below hw).2
        have h2 := heplaced.stop_le_start hcs hz
        have h3 := ((heplaced.child hc).full_below hx).1
        omega
      rw [map_revise_of_silent hquiet] at hpre
      apply hplace (heplaced.child hc) (hfplaced.child hdmem)
      · rw [heplaced.child_start hcs, hfplaced.child_start hds, fullTextAll_eq_of_shapes hpre,
          hstart]
      · exact fun z hz => hbefore z (.child hc hz)
    · intro r' g hr' hg hyx
      have hdc := hmore r' g hr' hg hyx
      have hr'e : r'.Silent e.id := by
        have := hr' e.id (he.id_ne_of_child hc hx).symm
        exact ⟨this.1.trans hetop.1, this.2.trans hetop.2⟩
      have hgf : g.Silent f.id := hg f.id (hf.id_ne_of_child hdmem hy).symm
      -- the siblings have other numbers, so both revisions leave them as they are
      have hrsiblings : ∀ zs : List Element, (∀ z ∈ zs, z ∈ pre ∨ z ∈ post) →
          zs.map r'.revise = zs.map r.revise := by
        intro zs hzs
        apply List.map_congr_left
        intro z hz
        exact revise_congr fun w hw => hr' w.id (he.id_ne_of_sibling hcs (hzs z hz) hw hx)
      have hgsiblings : ∀ zs : List Element, (∀ z ∈ zs, z ∈ pre' ∨ z ∈ post') →
          zs.map g.revise = zs.map shape := by
        intro zs hzs
        apply map_revise_of_silent
        intro z hz w hw
        exact hg w.id (hf.id_ne_of_sibling hds (hzs z hz) hw hy)
      rw [revise_node_of_silent hfnode hgf, revise_node_of_silent henode hr'e, hfkind, hds, hcs,
        List.map_append, List.map_append, List.map_cons, List.map_cons, hdc,
        hrsiblings pre fun _ => .inl, hrsiblings post fun _ => .inr,
        hgsiblings pre' fun _ => .inl, hgsiblings post' fun _ => .inr, hpre, hpost]

end Revision

/-! ### Edits of one element -/

namespace Tree

open Element

variable {t : Tree} {x : Element}

theorem exists_edit_replace_eq (hx : Below t.top x) (replacement : Tree) :
    ∃ t', t.edit (({} : Edits).replace x.id replacement) = .ok t' ∧
      t'.top.shape = (({} : Revision).replace x.id replacement.top.shape).revise t.top := by
  obtain ⟨t', ht', hshape⟩ := @exists_edit_eq_ok t (({} : Edits).replace x.id replacement) (by
    intro id hid
    obtain rfl : id = x.id := by simpa [Edits.targets, Edits.replace] using hid
    exact lt_size_of_below_top hx)
  refine ⟨t', ht', ?_⟩
  rw [hshape]
  apply Revision.revise_congr
  intro z _
  refine ⟨?_, rfl⟩
  rw [Edits.replacement?_revision, Edits.replacement?_replace, Revision.replace]
  simp only [eq_comm, apply_ite (Option.map _), Option.map_some]
  rfl

/-- The edits that insert fragments one by one. -/
theorem foldl_insert_eq (fragments : List Tree) (parent : NodeId) (index : Nat) (edits : Edits) :
    fragments.foldl (fun edits f => edits.insert parent index f) edits
      = { edits with
          insertions := edits.insertions ++ fragments.map fun f => ⟨parent, index, f⟩ } := by
  induction fragments generalizing edits with
  | nil => simp
  | cons f fragments ih => rw [List.foldl_cons, ih]; simp [Edits.insert]

theorem exists_edit_insert_eq (hx : Below t.top x) (index : Nat) (fragments : List Tree) :
    ∃ t', t.edit (fragments.foldl (fun edits f => edits.insert x.id index f) {}) = .ok t' ∧
      t'.top.shape
        = (({} : Revision).insert x.id index (fragments.map (·.top.shape))).revise t.top := by
  rw [foldl_insert_eq]
  obtain ⟨t', ht', hshape⟩ := @exists_edit_eq_ok t
    ⟨[], [] ++ fragments.map fun f => ⟨x.id, index, f⟩⟩ (by
      intro id hid
      have hid' : id = x.id := by
        simp only [Edits.targets, List.map_nil, List.nil_append, List.map_map, List.mem_map] at hid
        obtain ⟨_, -, rfl⟩ := hid
        rfl
      rw [hid']
      exact lt_size_of_below_top hx)
  refine ⟨t', ht', ?_⟩
  rw [hshape]
  apply Revision.revise_congr
  intro z _
  refine ⟨rfl, ?_⟩
  simp only [Edits.revision, Revision.insert, List.nil_append, List.filter_map, List.map_map]
  by_cases hid : z.id = x.id
  · have hall : fragments.filter (fun _ => x.id == z.id) = fragments :=
      List.filter_eq_self.mpr fun _ _ => beq_iff_eq.mpr hid.symm
    rw [if_pos hid]
    exact congrArg (List.map _) hall
  · have hnone : fragments.filter (fun _ => x.id == z.id) = [] :=
      List.filter_eq_nil_iff.mpr fun _ _ h => hid (beq_iff_eq.mp h).symm
    rw [if_neg hid]
    exact congrArg (List.map _) hnone

end Tree

end TreeLint
