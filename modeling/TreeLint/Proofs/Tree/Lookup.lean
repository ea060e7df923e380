/-
TreeLint/Proofs/Tree/Lookup.lean

Finding elements again, by span and by number.

What lies in a placed element lies in its span, siblings lie side by side, and
so a span that is not empty leads down one way only.  Looking up the span of a
node therefore ends at or below that node (`Placed.exists_nodeAt?_eq`).

Going up from an element by the parent table retraces the way that leads down
to it (`Tree.ancestors_eq`), and the place of a child among its siblings is
where it stands in the list of children (`Tree.indexInParent?_eq`).

A search on the way up comes to the nearest element around that it looks for: no
other one lies between (`Tree.find?_ancestors_eq_some_iff`).

Both together say which node is found for a span: the innermost of those that
have it, all of which lie on its way up (`Tree.nodeAt?_innermost`).
-/
import TreeLint.Proofs.Tree.Table

namespace TreeLint

namespace Element

/-! ### Where elements lie -/

/-- Some text of the element is not trivia of its first token. -/
def Visible (e : Element) : Prop := e.span.start < e.span.stop

namespace Placed

variable {e x c d : Element} {pre post : List Element}

theorem full_start_le_stop (h : e.Placed) : e.full.start ≤ e.full.stop := by
  rw [h.stop_eq]
  exact Nat.le_add_right _ _

theorem span_stop (h : e.Placed) : e.span.stop = e.full.stop := by
  rw [h.span_eq]

theorem full_start_le_span_start (h : e.Placed) : e.full.start ≤ e.span.start := by
  rw [h.span_eq]
  exact Nat.le_add_right _ _

/-- An element is visible when its text is not empty. -/
theorem visible_iff (h : e.Placed) : e.Visible ↔ e.text ≠ "" := by
  have hsize : e.fullText.utf8ByteSize = e.leadingTrivia.utf8ByteSize + e.text.utf8ByteSize := by
    rw [← String.utf8ByteSize_append, ← fullText_eq_leadingTrivia_append_text]
  have hzero : e.text = "" ↔ e.text.utf8ByteSize = 0 := String.utf8ByteSize_eq_zero_iff.symm
  rw [Visible, h.span_eq, h.stop_eq, hsize, Ne, hzero]
  simp only
  omega

theorem full_below (h : e.Placed) (hx : Below e x) :
    e.full.start ≤ x.full.start ∧ x.full.stop ≤ e.full.stop := by
  obtain ⟨before, after, htext, hstart⟩ := h.exists_fullText_eq hx
  rw [(h.below hx).stop_eq, h.stop_eq, hstart, htext]
  simp only [String.utf8ByteSize_append]
  omega

/-- A child stands after the children before it. -/
theorem stop_le_start (h : e.Placed) (hcs : e.children = pre ++ c :: post) (hd : d ∈ pre) :
    d.full.stop ≤ c.full.start := by
  obtain ⟨before, between, rfl⟩ := List.append_of_mem hd
  have hd' : e.children = before ++ d :: (between ++ c :: post) := by
    rw [hcs, List.append_assoc, List.cons_append]
  have hplaced : d.Placed := h.child (hd' ▸ List.mem_append_right _ List.mem_cons_self)
  rw [hplaced.stop_eq, h.child_start hd', h.child_start hcs, fullTextAll_append, fullTextAll]
  simp only [String.utf8ByteSize_append]
  omega

/-- Two different children lie side by side. -/
theorem stop_le_start_or (h : e.Placed) (hc : c ∈ e.children) (hd : d ∈ e.children)
    (hcd : c ≠ d) : c.full.stop ≤ d.full.start ∨ d.full.stop ≤ c.full.start := by
  obtain ⟨pre, post, hcs⟩ := List.append_of_mem hc
  rw [hcs] at hd
  rcases List.mem_append.mp hd with hd | hd
  · exact .inr (h.stop_le_start hcs hd)
  · rcases List.mem_cons.mp hd with rfl | hd
    · exact absurd rfl hcd
    · obtain ⟨between, after, rfl⟩ := List.append_of_mem hd
      have hcs' : e.children = (pre ++ c :: between) ++ d :: after := by
        rw [hcs, List.append_assoc, List.cons_append]
      exact .inl (h.stop_le_start hcs' (List.mem_append_right _ List.mem_cons_self))

end Placed

theorem leadingToken?_of_below {e x : Element} (h : Below e x) (hx : x.leadingToken? ≠ none) :
    e.leadingToken? ≠ none := by
  induction h with
  | refl => exact hx
  | @child e c x hc _ ih =>
    rw [eq_node (isToken_of_mem_children hc), leadingToken?_node, Ne, List.findSome?_eq_none_iff]
    intro hnone
    exact ih hx (hnone c hc)

theorem utf8ByteSize_le_fullTextAll {cs : List Element} {c : Element} (h : c ∈ cs) :
    c.fullText.utf8ByteSize ≤ (fullTextAll cs).utf8ByteSize := by
  obtain ⟨pre, post, rfl⟩ := List.append_of_mem h
  rw [fullTextAll_append, fullTextAll, String.utf8ByteSize_append, String.utf8ByteSize_append]
  omega

namespace Placed

variable {e x : Element}

theorem leadingToken?_of_visible (h : e.Placed) (hv : e.Visible) : e.leadingToken? ≠ none := by
  intro hnone
  have hfull := fullText_of_leadingToken?_eq_none hnone
  rw [Visible, h.span_eq, h.stop_eq, hfull] at hv
  simp only [String.utf8ByteSize_empty] at hv
  omega

/-- The span of a visible element starts in the span of what it lies in. -/
theorem span_start_le (h : e.Placed) (hx : Below e x) (hv : x.Visible) :
    e.span.start ≤ x.span.start := by
  induction hx with
  | refl => exact Nat.le_refl _
  | @child e c x hc hx ih =>
    have hc' := h.child hc
    have hx' := hc'.below hx
    obtain ⟨pre, post, hcs⟩ := List.append_of_mem hc
    have hstart := h.child_start hcs
    have hlead : e.leadingToken? = (pre ++ c :: post).findSome? leadingToken? := by
      rw [← hcs, ← leadingToken?_node e.label, ← eq_node (isToken_of_mem_children hc)]
    rw [List.findSome?_append, List.findSome?_cons] at hlead
    rcases hpre : pre.findSome? leadingToken? with - | t
    · -- nothing before the child has a token, so the two spans start together
      have hempty : fullTextAll pre = "" := by
        rw [← fullText_node e.label]
        apply fullText_of_leadingToken?_eq_none
        rw [leadingToken?_node, hpre]
      obtain ⟨t, ht⟩ := Option.ne_none_iff_exists'.mp
        (leadingToken?_of_below hx (hx'.leadingToken?_of_visible hv))
      have htrivia : e.leadingTrivia = c.leadingTrivia := by
        rw [leadingTrivia_eq, leadingTrivia_eq, hlead, hpre, ht]
        rfl
      have hspan : e.span.start = c.span.start := by
        rw [h.span_eq, hc'.span_eq, htrivia, hstart, hempty]
        rfl
      rw [hspan]
      exact ih hc' hv
    · -- a token before the child has its trivia there, too
      obtain ⟨d, hd, ht⟩ := List.exists_of_findSome?_eq_some hpre
      have htrivia : e.leadingTrivia = d.leadingTrivia := by
        rw [leadingTrivia_eq, leadingTrivia_eq, hlead, hpre, ht]
        rfl
      have hle := utf8ByteSize_le_fullTextAll hd
      rw [d.fullText_eq_leadingTrivia_append_text, String.utf8ByteSize_append] at hle
      have hfull := hc'.full_below hx
      have hxspan := hx'.full_start_le_span_start
      rw [h.span_eq, htrivia]
      simp only
      omega

/-- What lies in an element has its span in the span of the element. -/
theorem contains_span (h : e.Placed) (hx : Below e x) (hv : x.Visible) :
    e.span.contains x.span = true := by
  have hstop := (h.full_below hx).2
  rw [← h.span_stop, ← (h.below hx).span_stop] at hstop
  rw [Span.contains, Bool.and_eq_true, decide_eq_true_eq, decide_eq_true_eq]
  exact ⟨h.span_start_le hx hv, hstop⟩

theorem visible_of_below (h : e.Placed) (hx : Below e x) (hv : x.Visible) : e.Visible := by
  have hstart := h.span_start_le hx hv
  have hstop := (h.full_below hx).2
  rw [← h.span_stop, ← (h.below hx).span_stop] at hstop
  rw [Visible] at hv ⊢
  omega

/-- Of two elements that have a byte in common, one lies in the other. -/
theorem below_or_below {y : Element} (h : e.Placed) (hx : Below e x) (hy : Below e y)
    (hxy : x.full.start < y.full.stop) (hyx : y.full.start < x.full.stop) :
    Below x y ∨ Below y x := by
  induction hx with
  | refl => exact .inl hy
  | @child e c x hc hx ih =>
    cases hy with
    | refl => exact .inr (.child hc hx)
    | @child _ d _ hd hy =>
      by_cases hcd : c = d
      · subst hcd
        exact ih (h.child hc) hy hxy hyx
      · have hcx := (h.child hc).full_below hx
        have hdy := (h.child hd).full_below hy
        rcases h.stop_le_start_or hc hd hcd with hle | hle <;> omega

end Placed

/-! ### Lookup by span -/

/-- What is found is a node with the given span. -/
theorem nodeAt?_eq_some {e n : Element} {s : Span} (h : e.nodeAt? s = some n) :
    Below e n ∧ n.isToken = false ∧ n.span = s := by
  induction e using Element.induction with
  | token l t => cases h
  | node l cs ih =>
    have hin : ∀ ds : List Element, (∀ d ∈ ds, d ∈ cs) → nodeAtIn? s ds = some n →
        Below (.node l cs) n ∧ n.isToken = false ∧ n.span = s := by
      intro ds hds hn
      induction ds with
      | nil => cases hn
      | cons d ds ihds =>
        rw [nodeAtIn?] at hn
        split at hn
        · obtain ⟨hbelow, hnode⟩ := ih d (hds d List.mem_cons_self) hn
          exact ⟨.child (hds d List.mem_cons_self) hbelow, hnode⟩
        · exact ihds (fun x hx => hds x (List.mem_cons_of_mem d hx)) hn
    -- the children are asked first
    rw [nodeAt?] at h
    rcases hcs : nodeAtIn? s cs with - | m
    · rw [hcs] at h
      simp only [Option.orElse_eq_orElse, Option.orElse_eq_or, Option.none_or] at h
      split at h
      · rename_i hspan
        obtain rfl := Option.some.inj h
        exact ⟨.refl _, rfl, hspan⟩
      · cases h
    · rw [hcs] at h
      obtain rfl : m = n := by simpa using h
      exact hin cs (fun _ h => h) hcs

/-- Among siblings, a visible span leads to the one that it lies in. -/
theorem nodeAtIn?_eq {s : Span} {pre post : List Element} {c : Element}
    (hpre : ∀ d ∈ pre, d.span.contains s = false) (hc : c.isToken = false)
    (hspan : c.span.contains s = true) : nodeAtIn? s (pre ++ c :: post) = c.nodeAt? s := by
  induction pre with
  | nil =>
    rw [List.nil_append, nodeAtIn?, if_pos]
    rw [hc, hspan]
    rfl
  | cons d pre ih =>
    rw [List.cons_append, nodeAtIn?, if_neg, ih fun x hx => hpre x (List.mem_cons_of_mem d hx)]
    rw [hpre d List.mem_cons_self, Bool.and_false]
    exact Bool.false_ne_true

/-- Looking up the span of a visible node ends at or below that node. -/
theorem Placed.exists_nodeAt?_eq {e x : Element} (h : e.Placed) (hx : Below e x)
    (hv : x.Visible) (hnode : x.isToken = false) :
    ∃ n, e.nodeAt? x.span = some n ∧ Below x n ∧ n.isToken = false ∧ n.span = x.span := by
  induction hx with
  | refl e =>
    have hsome : ∃ n, e.nodeAt? e.span = some n := by
      rw [eq_node hnode, nodeAt?, span_node]
      rcases nodeAtIn? e.label.span e.children with - | m
      · exact ⟨.node e.label e.children, by simp⟩
      · exact ⟨m, by simp⟩
    obtain ⟨n, hn⟩ := hsome
    exact ⟨n, hn, nodeAt?_eq_some hn⟩
  | @child e c x hc hx ih =>
    have hc' := h.child hc
    obtain ⟨n, hn, hbelow, hn'⟩ := ih hc' hv hnode
    refine ⟨n, ?_, hbelow, hn'⟩
    have hcnode : c.isToken = false := by
      by_contra htoken
      rw [hx.eq_of_isToken (Bool.not_eq_false _ ▸ htoken)] at hnode
      exact htoken hnode
    obtain ⟨pre, post, hcs⟩ := List.append_of_mem hc
    -- the siblings before end where the span has not begun
    have hpre : ∀ d ∈ pre, d.span.contains x.span = false := by
      intro d hd
      have hd' : d.Placed := h.child (hcs ▸ List.mem_append_left _ hd)
      have hstop := h.stop_le_start hcs hd
      have hle := (hc'.full_below hx).1
      have hle' := (hc'.below hx).full_start_le_span_start
      rw [Visible] at hv
      rw [Span.contains, Bool.and_eq_false_iff, decide_eq_false_iff_not, decide_eq_false_iff_not,
        hd'.span_stop]
      omega
    rw [eq_node (isToken_of_mem_children hc), nodeAt?, hcs,
      nodeAtIn?_eq hpre hcnode (hc'.contains_span hx hv), hn]
    rfl

end Element

namespace Tree

open Element

variable {t : Tree} {x : Element}

/-- Looking up the span of a visible node of a tree ends at or below that node. -/
theorem exists_nodeAt?_eq (hx : Below t.top x) (hv : x.Visible) (hnode : x.isToken = false) :
    ∃ n, t.nodeAt? x.span = some n ∧ Below x n ∧ n.isToken = false ∧ n.span = x.span := by
  rw [nodeAt?, if_pos (t.placed_top.contains_span hx hv)]
  exact t.placed_top.exists_nodeAt?_eq hx hv hnode

/-- What is looked up in a tree is a node there that has the span. -/
theorem of_nodeAt?_eq_some {n : Element} {s : Span} (h : t.nodeAt? s = some n) :
    Below t.top n ∧ n.isToken = false ∧ n.span = s := by
  rw [nodeAt?] at h
  split at h
  · exact nodeAt?_eq_some h
  · cases h

end Tree

/-! ### Going up -/

namespace Element

/-- The elements strictly between the top of `e` and `x`, with the top: all that `x` lies in, the
nearest first. -/
inductive Lineage : Element → Element → List Element → Prop
  | refl (e : Element) : Lineage e e []
  | child {e c x : Element} {above : List Element} :
      c ∈ e.children → Lineage c x above → Lineage e x (above ++ [e])

namespace Lineage

variable {e x y : Element} {above above' : List Element}

theorem trans (h : Lineage e x above) (h' : Lineage x y above') :
    Lineage e y (above' ++ above) := by
  induction h with
  | refl => rwa [List.append_nil]
  | child hc _ ih =>
    rw [← List.append_assoc]
    exact .child hc (ih h')

theorem toBelow (h : Lineage e x above) : Below e x := by
  induction h with
  | refl => exact .refl _
  | child hc _ ih => exact .child hc ih

theorem below_of_mem (h : Lineage e x above) {z : Element} (hz : z ∈ above) : Below e z := by
  induction h with
  | refl => cases hz
  | child hc _ ih =>
    rcases List.mem_append.mp hz with hz | hz
    · exact .child hc (ih hz)
    · rw [List.mem_singleton.mp hz]
      exact .refl _

/-- The elements that an element lies in lie in one another. -/
theorem pairwise (h : Lineage e x above) : above.Pairwise fun y z => Below z y := by
  induction h with
  | refl => exact .nil
  | child hc h ih =>
    refine List.pairwise_append.mpr ⟨ih, List.pairwise_singleton _ _, ?_⟩
    intro y hy z hz
    rw [List.mem_singleton.mp hz]
    exact .child hc (h.below_of_mem hy)

theorem below_right_of_mem (h : Lineage e x above) {z : Element} (hz : z ∈ above) : Below z x := by
  induction h with
  | refl => cases hz
  | child hc h ih =>
    rcases List.mem_append.mp hz with hz | hz
    · exact ih hz
    · rw [List.mem_singleton.mp hz]
      exact .child hc h.toBelow

/-- What an element lies in has children. -/
theorem isToken_of_mem (h : Lineage e x above) {z : Element} (hz : z ∈ above) :
    z.isToken = false := by
  induction h with
  | refl => cases hz
  | child hc _ ih =>
    rcases List.mem_append.mp hz with hz | hz
    · exact ih hz
    · rw [List.mem_singleton.mp hz]
      exact isToken_of_mem_children hc

end Lineage

theorem Below.exists_lineage {e x : Element} (h : Below e x) : ∃ above, Lineage e x above := by
  induction h with
  | refl e => exact ⟨[], .refl e⟩
  | child hc _ ih =>
    obtain ⟨above, h⟩ := ih
    exact ⟨_, .child hc h⟩

end Element

namespace Tree

open Element

variable {t : Tree} {x : Element} {above : List Element}

/-- The chain of parents starts with the elements that an element lies in. -/
theorem parentChain_eq {e : Element} (he : t.Fits e) (h : Lineage e x above) (k : Nat) :
    t.parentChain (above.length + k) x.id = above.map Element.id ++ t.parentChain k e.id := by
  induction h generalizing k with
  | refl => rw [List.length_nil, Nat.zero_add]; rfl
  | @child e c x above hc _ ih =>
    have hparent : t.parentChain (k + 1) c.id = e.id :: t.parentChain k e.id := by
      rw [parentChain, he.parent? hc]
    rw [List.length_append, List.length_singleton, Nat.add_assoc, Nat.add_comm 1 k,
      ih (he.child hc), hparent, List.map_append, List.append_assoc]
    rfl

/-- The way up from an element of the tree takes as many steps as there are elements above it. -/
theorem up_length {e : Element} (he : t.Fits e) (h : Lineage e x above) :
    t.up above.length x.id = some e.id := by
  induction h with
  | refl => rfl
  | @child e c x above hc _ ih =>
    rw [List.length_append, List.length_singleton, up_add, ih (he.child hc), Option.bind_some, up,
      he.parent? hc]
    rfl

/-- Going up retraces the way down. -/
theorem ancestors_eq (hx : Below t.top x) (h : Lineage t.top x above) :
    t.ancestors x.id = above := by
  have hup := up_length t.fits_top h
  rw [id_top] at hup
  obtain ⟨k, hk⟩ := Nat.exists_eq_add_of_lt (level_lt_size (lt_size_of_below_top hx) hup)
  have hroot : ∀ k, t.parentChain k t.top.id = [] := by
    intro k
    cases k with
    | zero => rfl
    | succ k => rw [parentChain, id_top, parent?_root]
  rw [ancestors, hk, Nat.add_assoc, parentChain_eq t.fits_top h, hroot, List.append_nil]
  have hmem : ∀ z ∈ above, t.element? z.id = some z :=
    fun z hz => element?_of_below_top (h.below_of_mem hz)
  clear * - hmem
  induction above with
  | nil => rfl
  | cons z above ih =>
    rw [List.map_cons, List.filterMap_cons_some (hmem z List.mem_cons_self),
      ih fun y hy => hmem y (List.mem_cons_of_mem z hy)]

/-- The place of a child among its siblings. -/
theorem indexInParent?_eq (hx : Below t.top x) {pre post : List Element} {c : Element}
    (hcs : x.children = pre ++ c :: post) : t.indexInParent? c.id = some pre.length := by
  have hc : c ∈ x.children := hcs ▸ List.mem_append_right _ List.mem_cons_self
  have hfits : t.Fits x := fun y hy => t.fits_top y (hx.trans hy)
  have hslot := slot_eq_of_below_top hx
  have hnodup : (x.children.map Element.id).Nodup := (checked hslot).nodup
  rw [indexInParent?, hfits.parent? hc]
  simp only [Option.bind_eq_bind, Option.bind_some, hslot]
  show (x.children.map Element.id).findIdx? (· == c.id) = some pre.length
  rw [hcs, List.map_append, List.map_cons] at hnodup ⊢
  have hnone : (pre.map Element.id).findIdx? (· == c.id) = none := by
    rw [List.findIdx?_eq_none_iff]
    intro i hi
    rw [beq_eq_false_iff_ne]
    exact (List.nodup_append.mp hnodup).2.2 i hi c.id List.mem_cons_self
  rw [List.findIdx?_append, hnone, List.findIdx?_cons, if_pos (beq_self_eq_true c.id),
    List.length_map]
  simp

/-- An element lies in those that are among its ancestors, and is further down than they are. -/
theorem mem_ancestors_of_below {n : Element} (hx : Below t.top x) (h : Below x n) (hne : x ≠ n) :
    x ∈ t.ancestors n.id ∧ (t.ancestors x.id).length < (t.ancestors n.id).length := by
  obtain ⟨above, habove⟩ := hx.exists_lineage
  obtain ⟨between, hbetween⟩ := h.exists_lineage
  rw [ancestors_eq hx habove, ancestors_eq (hx.trans h) (habove.trans hbetween),
    List.length_append]
  cases hbetween with
  | refl => exact absurd rfl hne
  | child _ _ =>
    rw [List.length_append, List.length_singleton]
    refine ⟨?_, by omega⟩
    exact List.mem_append_left _ (List.mem_append_right _ (List.mem_singleton_self x))

/-! ### The nearest element around -/

variable (t) in
/-- Of the elements that have the property and that `x` lies in, `y` is the one that lies in all
others. -/
structure IsNearest (P : Element → Prop) (x y : Element) : Prop where
  below_top : Below t.top y
  around : Below y x
  holds : P y
  nearest : ∀ z, Below t.top z → Below z x → P z → Below z y

theorem IsNearest.unique {P : Element → Prop} {y y' : Element} (h : t.IsNearest P x y)
    (h' : t.IsNearest P x y') : y = y' := by
  have hyy' := h'.nearest y h.below_top h.around h.holds
  have hy'y := h.nearest y' h'.below_top h'.around h'.holds
  by_contra hne
  -- each of them would be further down than the other one
  have hlt := (mem_ancestors_of_below h.below_top hyy' hne).2
  have hgt := (mem_ancestors_of_below h'.below_top hy'y (Ne.symm hne)).2
  omega

/-- The first one on the way up from an element is the nearest one around it. -/
theorem find?_ancestors_eq_some_iff {p : Element → Bool} {y : Element} (hx : Below t.top x)
    (hp : p x = false) : (t.ancestors x.id).find? p = some y ↔ t.IsNearest (p · = true) x y := by
  have hmem : ∀ {z}, Below t.top z → Below z x → p z = true → z ∈ t.ancestors x.id := by
    intro z hz hzx hpz
    refine (mem_ancestors_of_below hz hzx ?_).1
    rintro rfl
    rw [hp] at hpz
    cases hpz
  have hfound : ∀ {y}, (t.ancestors x.id).find? p = some y → t.IsNearest (p · = true) x y := by
    intro y h
    obtain ⟨above, hlineage⟩ := hx.exists_lineage
    rw [ancestors_eq hx hlineage] at h hmem
    obtain ⟨hpy, before, after, rfl, hbefore⟩ := List.find?_eq_some_iff_append.mp h
    have hy := List.mem_append_right before (List.mem_cons_self (a := y) (l := after))
    refine ⟨hlineage.below_of_mem hy, hlineage.below_right_of_mem hy, hpy, ?_⟩
    intro z hz hzx hpz
    have hpairwise := (List.pairwise_append.mp hlineage.pairwise).2.1
    rcases List.mem_append.mp (hmem hz hzx hpz) with hz | hz
    · have hnot := hbefore z hz
      rw [hpz] at hnot
      cases hnot
    · rcases List.mem_cons.mp hz with rfl | hz
      · exact .refl _
      · exact (List.pairwise_cons.mp hpairwise).1 z hz
  constructor
  · exact hfound
  · intro h
    have hsome : ((t.ancestors x.id).find? p).isSome = true :=
      List.find?_isSome.mpr ⟨y, hmem h.below_top h.around h.holds, h.holds⟩
    obtain ⟨y', hy'⟩ := Option.isSome_iff_exists.mp hsome
    rw [hy', h.unique (hfound hy')]

/-! ### The innermost node at a span -/

variable (t) in
/-- The element is a node that the root reaches, and has exactly the given span. -/
structure IsNodeAt (s : Span) (x : Element) : Prop where
  reachable : t.Reachable x.id
  element?_eq : t.element? x.id = some x
  isToken_eq : x.isToken = false
  span_eq : x.span = s

theorem isNodeAt_iff {s : Span} :
    t.IsNodeAt s x ↔ Below t.top x ∧ x.isToken = false ∧ x.span = s := by
  constructor
  · rintro ⟨hreachable, helement, hnode, hspan⟩
    obtain ⟨y, hy, hid⟩ := reachable_iff.mp hreachable
    rw [← hid, element?_of_below_top hy] at helement
    exact ⟨Option.some.inj helement ▸ hy, hnode, hspan⟩
  · rintro ⟨hx, hnode, hspan⟩
    exact ⟨reachable_iff.mpr ⟨x, hx, rfl⟩, element?_of_below_top hx, hnode, hspan⟩

/-- **Lookup by span.**  A span that is not empty is found exactly if some reachable node has it,
and what is found is the innermost of these nodes: all others are above it. -/
theorem nodeAt?_innermost (t : Tree) {s : Span} (hs : s.start < s.stop) :
    ((t.nodeAt? s).isSome = true ↔ ∃ x, t.IsNodeAt s x) ∧
      ∀ n, t.nodeAt? s = some n → t.IsNodeAt s n ∧
        ∀ x, t.IsNodeAt s x → x ≠ n →
          x ∈ t.ancestors n.id ∧ (t.ancestors x.id).length < (t.ancestors n.id).length := by
  have hfound : ∀ n, t.nodeAt? s = some n → t.IsNodeAt s n := by
    intro n hn
    rw [nodeAt?] at hn
    split at hn
    · exact isNodeAt_iff.mpr (nodeAt?_eq_some hn)
    · cases hn
  -- what is found for the span of a node lies in that node
  have hbelow : ∀ x, t.IsNodeAt s x → ∃ n, t.nodeAt? s = some n ∧ Below x n := by
    intro x hx
    obtain ⟨hbelow, hnode, rfl⟩ := isNodeAt_iff.mp hx
    obtain ⟨n, hn, hxn, -, -⟩ := exists_nodeAt?_eq hbelow hs hnode
    exact ⟨n, hn, hxn⟩
  constructor
  · rw [Option.isSome_iff_exists]
    constructor
    · exact fun ⟨n, hn⟩ => ⟨n, hfound n hn⟩
    · rintro ⟨x, hx⟩
      obtain ⟨n, hn, -⟩ := hbelow x hx
      exact ⟨n, hn⟩
  · intro n hn
    refine ⟨hfound n hn, fun x hx hne => ?_⟩
    obtain ⟨n', hn', hxn⟩ := hbelow x hx
    obtain rfl := Option.some.inj (hn.symm.trans hn')
    exact mem_ancestors_of_below (isNodeAt_iff.mp hx).1 hxn hne

/-- A block around a statement around a name, with a node without tokens before the statement. -/
def nestedName : Tree :=
  ⟨#[⟨.block, [1, 2], none⟩, ⟨.argumentList, [], none⟩, ⟨.expressionStatement, [3], none⟩,
      ⟨.identifierName, [4], none⟩, ⟨.identifierToken, [], some ⟨"Hue", " "⟩⟩],
    0, #[none, some 0, some 0, some 2, some 3], _, rfl, rfl⟩

theorem nodeAt?_innermost_nestedName :
    (Span.mk 1 4).start < (Span.mk 1 4).stop ∧
      ∃ n, nestedName.nodeAt? ⟨1, 4⟩ = some n ∧ n.id = 3 ∧
        (nestedName.ancestors n.id).map Element.id = [2, 0] ∧
        ∀ x, nestedName.IsNodeAt ⟨1, 4⟩ x → x ≠ n → x ∈ nestedName.ancestors n.id := by
  have hs : (Span.mk 1 4).start < (Span.mk 1 4).stop := by decide
  have hid : (nestedName.nodeAt? ⟨1, 4⟩).map Element.id = some 3 := rfl
  obtain ⟨n, hn, hid⟩ := Option.map_eq_some_iff.mp hid
  obtain ⟨-, habove⟩ := (nodeAt?_innermost nestedName hs).2 n hn
  refine ⟨hs, n, hn, hid, ?_, fun x hx hne => (habove x hx hne).1⟩
  rw [hid]
  rfl

end Tree

end TreeLint
