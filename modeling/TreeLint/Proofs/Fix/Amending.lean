/-
TreeLint/Proofs/Fix/Amending.lean

What back-to-front fixing leaves alone.

Fixes of a tree add up to one revision of it.  At any time the revision has
put `nameof` in the place of some literals and added sections to some switches
(`Revision.Touch`), and each of these elements has a *mark*: the literal itself,
or the expression of the switch.  The marks are at the spans of the diagnostics
that were fixed.

Going back to front, the next diagnostic ends before all marks begin.  So
nothing has been done in the element that it flags, nor around it, nor before
it (`Touch.silent_of_below`, `silent_of_above`, `silent_of_before`), although
sections may have been added anywhere behind.  Elsewhere the revision keeps what
later fixes look at: whether elements are tokens, their kinds up to a literal
that became `nameof`, and the trivia of first tokens.
-/
import TreeLint.Proofs.Fix.Switches
import TreeLint.Proofs.Tree.Phrases
import TreeLint.Proofs.Tree.TextEdits

namespace TreeLint

namespace Revision

open Element

/-! ### What has been done to an element -/

/-- What a revision has done to an element, given the spans of the diagnostics that were fixed:
nothing, put `nameof` in the place of a literal, or added sections to a switch. -/
inductive Touch (r : Revision) (spans : List Span) (x : Element) : Prop
  | silent (h : r.Silent x.id)
  | literal {name : String} (hkind : x.kind = .literalExpression) (hnode : x.isToken = false)
      (hvisible : x.Visible) (h : r.replacement? x.id = some (.nameOf name))
      (hbelow : ∀ c ∈ x.children, ∀ z, Below c z → r.Silent z.id) (hspan : x.span ∈ spans)
  | switch {keyword expression brace anchor : Element} {before after pre rest : List Element}
      {ss : List Shape} (hkind : x.kind = .switchStatement)
      (hparts : SwitchParts x keyword before expression after brace)
      (hcs : x.children = pre ++ anchor :: rest) (hpre : expression ∈ pre)
      (h : r.replacement? x.id = none) (hss : r.insertions x.id = ss.map fun s => (pre.length, s))
      (hne : ss ≠ []) (hspan : expression.span ∈ spans)

namespace Touch

variable {r : Revision} {spans : List Span} {x : Element}

theorem silent_of_isToken (h : Touch r spans x) (hx : x.isToken = true) : r.Silent x.id := by
  cases h with
  | silent h => exact h
  | literal _ hnode _ _ _ _ =>
    rw [hx] at hnode
    cases hnode
  | switch _ hparts _ _ _ _ _ _ =>
    rw [hparts.isToken_eq] at hx
    cases hx

/-- What has been done to an element can be read as an edit of the text. -/
theorem legible (h : Touch r spans x) (hx : x.Placed) : r.Legible x := by
  cases h with
  | silent h => exact .silent h
  | literal _ _ hvisible h hbelow _ =>
    exact .replaced h (Shape.fullText_withTrivia_nameOf _) hvisible hbelow
  | switch _ hparts hcs hpre h hss hne _ =>
    obtain ⟨hstart, hstop⟩ := hparts.inside_of_children_eq hx hcs hpre
    exact .extended h hcs hss hne hstart hstop

/-! ### Marks -/

/-- An element to which something has been done has a mark. -/
theorem exists_mark (h : Touch r spans x) (hx : x.Placed) :
    r.Silent x.id ∨ ∃ w, Below x w ∧ w.Visible ∧ w.span ∈ spans := by
  cases h with
  | silent h => exact .inl h
  | literal _ _ hvisible _ _ hspan => exact .inr ⟨x, .refl x, hvisible, hspan⟩
  | switch _ hparts _ _ _ _ _ hspan =>
    exact .inr ⟨_, .of_child hparts.expression_mem, hparts.visible_expression hx, hspan⟩

variable {m : Element}

/-- Nothing has been done in an element that ends before all marks begin. -/
theorem silent_of_below (h : Touch r spans x) (hm : m.Placed) (hx : Below m x)
    (hspans : ∀ s ∈ spans, m.span.stop ≤ s.start) : r.Silent x.id := by
  rcases h.exists_mark (hm.below hx) with h | ⟨w, hw, hvisible, hspan⟩
  · exact h
  · have hstop := hspans w.span hspan
    have hle := (hm.full_below (hx.trans hw)).2
    rw [Visible] at hvisible
    rw [← hm.span_stop, ← (hm.below (hx.trans hw)).span_stop] at hle
    omega

/-- Nothing has been done before an element that ends before all marks begin. -/
theorem silent_of_before (h : Touch r spans x) (hm : m.Placed) (hv : m.Visible) (hx : x.Placed)
    (hbefore : x.full.stop ≤ m.full.start) (hspans : ∀ s ∈ spans, m.span.stop ≤ s.start) :
    r.Silent x.id := by
  rcases h.exists_mark hx with h | ⟨w, hw, hvisible, hspan⟩
  · exact h
  · have hstop := hspans w.span hspan
    have hle := (hx.full_below hw).2
    have hle' := hm.full_start_le_span_start
    rw [Visible] at hvisible hv
    rw [← (hx.below hw).span_stop] at hle
    omega

/-- Nothing has been done to what lies around a node that ends before all marks begin. -/
theorem silent_of_above (h : Touch r spans x) (hx : x.Placed) (hm : Below x m) (hv : m.Visible)
    (hnode : m.isToken = false) (hspans : ∀ s ∈ spans, m.span.stop ≤ s.start) :
    r.Silent x.id := by
  cases h with
  | silent h => exact h
  | literal _ _ _ _ _ hspan =>
    exfalso
    -- the literal is marked, and the node does not begin before it
    have hstop := hspans x.span hspan
    have hstart := hx.span_start_le hm hv
    rw [Visible] at hv
    omega
  | @switch _ expression _ _ _ _ _ _ _ hkind hparts hcs hpre h hss hne hspan =>
    cases hm with
    | refl =>
      have htouch : Touch r spans x := .switch hkind hparts hcs hpre h hss hne hspan
      exact htouch.silent_of_below hx (.refl x) hspans
    | child hc hm =>
      exfalso
      -- the expression is marked, and every node in the switch is in it or behind it
      have hstop := hspans expression.span hspan
      have hexpression := hx.child hparts.expression_mem
      have hvisible := hparts.visible_expression hx
      rcases hparts.below_expression_or hx hc hm hnode with hin | hbehind
      · have hstart := hexpression.span_start_le hin hv
        rw [Visible] at hv
        omega
      · have hle := ((hx.child hc).below hm).full_start_le_span_start
        rw [Visible] at hv hvisible
        rw [hexpression.span_stop] at hvisible
        omega

/-! ### What later fixes look at -/

variable {f : Element}

/-- Tokens stay tokens, and kinds stay, but for a literal that became `nameof`. -/
theorem kept (h : Touch r spans x) (hf : f.shape = r.revise x) :
    f.isToken = x.isToken ∧
      (f.kind = x.kind ∨ x.kind = .literalExpression ∧ f.kind = .nameOfExpression) := by
  cases h with
  | silent h =>
    cases x with
    | token l t =>
      rw [revise_token_of_silent rfl h] at hf
      obtain ⟨htoken, hkind⟩ := of_shape_eq_token hf
      exact ⟨htoken, .inl hkind⟩
    | node l cs =>
      rw [revise_node_of_silent rfl h] at hf
      obtain ⟨hnode, hkind, -⟩ := of_shape_eq_node hf
      exact ⟨hnode, .inl hkind⟩
  | literal hkind hnode _ h _ _ =>
    rw [revise_of_replacement? h, Shape.nameOf, Shape.withTrivia] at hf
    obtain ⟨hnode', hkind', -⟩ := of_shape_eq_node hf
    exact ⟨hnode'.trans hnode.symm, .inr ⟨hkind, hkind'⟩⟩
  | switch _ hparts hcs _ h hss _ _ =>
    rw [revise_node_of_insertions_eq h hcs hss] at hf
    obtain ⟨hnode, hkind, -⟩ := of_shape_eq_node hf
    exact ⟨hnode.trans hparts.isToken_eq.symm, .inl hkind⟩

theorem kind_beq_eq (h : Touch r spans x) (hf : f.shape = r.revise x) {k : Kind}
    (hk : k ≠ .literalExpression) (hk' : k ≠ .nameOfExpression) :
    (f.kind == k) = (x.kind == k) := by
  rcases (h.kept hf).2 with hkind | ⟨hx, hf⟩
  · rw [hkind]
  · rw [hx, hf, beq_eq_false_iff_ne.mpr hk.symm, beq_eq_false_iff_ne.mpr hk'.symm]

end Touch

/-- Where shapes keep the trivia of first tokens, so does a row of them. -/
theorem findSome?_trivia_eq {φ : Element → Shape} {cs : List Element}
    (h : ∀ c ∈ cs, (φ c).leadingToken?.map (·.trivia) = c.leadingToken?.map (·.trivia)) :
    ((cs.map φ).findSome? Shape.leadingToken?).map (·.trivia)
      = (cs.findSome? leadingToken?).map (·.trivia) := by
  induction cs with
  | nil => rfl
  | cons c cs ih =>
    have hc := h c List.mem_cons_self
    rw [List.map_cons, List.findSome?_cons, List.findSome?_cons]
    rcases hx : c.leadingToken? with - | t
    · rw [hx, Option.map_none, Option.map_eq_none_iff] at hc
      rw [hc]
      exact ih fun d hd => h d (List.mem_cons_of_mem c hd)
    · rw [hx, Option.map_some, Option.map_eq_some_iff] at hc
      obtain ⟨t', ht', htrivia⟩ := hc
      rw [ht']
      exact congrArg some htrivia

theorem leadingToken?_trivia_revise {r : Revision} {spans : List Span} {x : Element}
    (hx : x.Placed) (h : ∀ z, Below x z → Touch r spans z) :
    (r.revise x).leadingToken?.map (·.trivia) = x.leadingToken?.map (·.trivia) := by
  induction x using Element.induction with
  | token l t =>
    have hsilent := (h _ (.refl _)).silent_of_isToken rfl
    rw [revise_token_of_silent rfl hsilent, leadingToken?_shape]
  | node l cs ih =>
    have hcs : ∀ c ∈ cs, (r.revise c).leadingToken?.map (·.trivia)
        = c.leadingToken?.map (·.trivia) :=
      fun c hc => ih c hc (hx.child hc) fun z hz => h z (.child hc hz)
    cases h _ (.refl _) with
    | silent hsilent =>
      rw [revise_node_of_silent rfl hsilent, Shape.leadingToken?_node, leadingToken?_node]
      exact findSome?_trivia_eq hcs
    | literal _ _ hvisible hs _ _ =>
      obtain ⟨t, ht⟩ := Option.ne_none_iff_exists'.mp (hx.leadingToken?_of_visible hvisible)
      rw [revise_of_replacement? hs, leadingTrivia_eq, ht]
      simp [Shape.nameOf, Shape.fixed, Shape.withTrivia, Shape.withTriviaIn]
    | @switch _ expression _ anchor _ _ pre rest ss _ hparts hcs' hpre hs hss _ _ =>
      -- a token stands before the sections that were added, in the expression if not earlier
      obtain rfl : cs = pre ++ anchor :: rest := hcs'
      have hexpression : expression.leadingToken? ≠ none :=
        (hx.child hparts.expression_mem).leadingToken?_of_visible (hparts.visible_expression hx)
      have hsame : ((pre.map r.revise).findSome? Shape.leadingToken?).map (·.trivia)
          = (pre.findSome? leadingToken?).map (·.trivia) :=
        findSome?_trivia_eq fun c hc => hcs c (List.mem_append_left _ hc)
      rw [revise_node_of_insertions_eq hs rfl hss, Shape.leadingToken?_node, leadingToken?_node,
        List.findSome?_append, @List.findSome?_append _ _ leadingToken? pre]
      rcases hfind : pre.findSome? leadingToken? with - | t
      · exact absurd (List.findSome?_eq_none_iff.mp hfind expression hpre) hexpression
      · rw [hfind, Option.map_some, Option.map_eq_some_iff] at hsame
        obtain ⟨t', ht', htrivia⟩ := hsame
        rw [ht']
        exact congrArg some htrivia

/-- The trivia of the first token stays. -/
theorem leadingTrivia_eq_of_touch {r : Revision} {spans : List Span} {x f : Element}
    (hx : x.Placed) (h : ∀ z, Below x z → Touch r spans z) (hf : f.shape = r.revise x) :
    f.leadingTrivia = x.leadingTrivia := by
  rw [leadingTrivia_eq, leadingTrivia_eq, ← leadingToken?_shape f, hf,
    leadingToken?_trivia_revise hx h]

/-! ### Reading a switch again -/

section Reading

open MissingCasesFix SwitchParts

variable {r : Revision} {spans : List Span} {x y : Element} {p : Element → Bool}
variable {φ : Element → Shape} {xs ys : List Element}

/-- What is looked for among elements can be found again, in the same place, among those that they
have become. -/
theorem exists_find?_eq (h : ys.map shape = xs.map φ)
    (hp : ∀ x ∈ xs, ∀ f, f.shape = φ x → p f = p x) (hx : xs.find? p = some x) :
    ∃ pre post pre' f post', xs = pre ++ x :: post ∧ ys = pre' ++ f :: post' ∧
      pre'.map shape = pre.map φ ∧ f.shape = φ x ∧ post'.map shape = post.map φ ∧
      ys.find? p = some f := by
  obtain ⟨hpx, pre, post, hxs, hpre⟩ := List.find?_eq_some_iff_append.mp hx
  obtain ⟨pre', f, post', hys, hpre', hf, hpost'⟩ := exists_split h hxs
  refine ⟨pre, post, pre', f, post', hxs, hys, hpre', hf, hpost', ?_⟩
  refine List.find?_eq_some_iff_append.mpr ⟨?_, pre', post', hys, ?_⟩
  · rw [hp x (hxs ▸ List.mem_append_right _ List.mem_cons_self) f hf]
    exact hpx
  · intro g hg
    obtain ⟨z, hz, hgz⟩ := List.mem_map.mp (hpre' ▸ List.mem_map_of_mem hg : g.shape ∈ pre.map φ)
    rw [hp z (hxs ▸ List.mem_append_left _ hz) g hgz.symm]
    exact hpre z hz

theorem any_eq_of_map_shape_eq (h : ys.map shape = xs.map φ)
    (hp : ∀ x ∈ xs, ∀ f, f.shape = φ x → p f = p x) : ys.any p = xs.any p := by
  have hmap := map_eq_of_map_shape_eq h hp
  have hany : ∀ zs : List Element, (zs.map p).any (fun b => b) = zs.any p :=
    fun zs => List.any_map
  rw [← hany ys, hmap, hany xs]

theorem find?_eq_none_of_map_shape_eq (h : ys.map shape = xs.map φ)
    (hp : ∀ x ∈ xs, ∀ f, f.shape = φ x → p f = p x) (hx : xs.find? p = none) :
    ys.find? p = none := by
  have hany := any_eq_of_map_shape_eq h hp
  rw [List.find?_eq_none] at hx ⊢
  rw [List.any_eq_false.mpr hx] at hany
  exact List.any_eq_false.mp hany

/-- What is read off the element that is looked for is the same if it is the same on each element
and what it has become. -/
theorem map_find?_eq {α : Type} {g : Element → α} (h : ys.map shape = xs.map φ)
    (hp : ∀ x ∈ xs, ∀ f, f.shape = φ x → p f = p x)
    (hg : ∀ x ∈ xs, ∀ f, f.shape = φ x → g f = g x) : (ys.find? p).map g = (xs.find? p).map g := by
  rcases hfind : xs.find? p with - | x
  · rw [find?_eq_none_of_map_shape_eq h hp hfind]
  · obtain ⟨_, _, _, f, _, -, -, -, hf, -, hfind'⟩ := exists_find?_eq h hp hfind
    rw [hfind', Option.map_some, Option.map_some, hg x (List.mem_of_find?_eq_some hfind) f hf]

/-- Nothing is ever done to a section itself. -/
theorem Touch.silent_of_section (h : Touch r spans x) (hx : x.kind = .switchSection) :
    r.Silent x.id := by
  cases h with
  | silent h => exact h
  | literal hkind _ _ _ _ _ =>
    rw [hx] at hkind
    cases hkind
  | switch hkind _ _ _ _ _ _ _ =>
    rw [hx] at hkind
    cases hkind

/-- What became of a section has what became of its children. -/
theorem Touch.children_of_section (h : Touch r spans x) (hx : x.kind = .switchSection)
    (hnode : x.isToken = false) (hy : y.shape = r.revise x) :
    y.children.map shape = x.children.map r.revise := by
  rw [revise_node_of_silent hnode (h.silent_of_section hx)] at hy
  exact (of_shape_eq_node hy).2.2

theorem isDefaultSection_eq (h : ∀ z, Below x z → Touch r spans z) (hy : y.shape = r.revise x) :
    isDefaultSection y = isDefaultSection x := by
  have hx := h x (.refl x)
  have hkind := hx.kind_beq_eq hy (k := .switchSection) (by decide) (by decide)
  have htoken := (hx.kept hy).1
  rw [isDefaultSection, isDefaultSection, hkind, htoken]
  by_cases hsection : x.kind = .switchSection ∧ x.isToken = false
  · have hcs := hx.children_of_section hsection.1 hsection.2 hy
    have hdefault : isDefault y = isDefault x := by
      rw [isDefault, isDefault, childNodes, childNodes, List.any_filter, List.any_filter]
      apply any_eq_of_map_shape_eq hcs
      intro c hc f hf
      have hc' := h c (.of_child hc)
      rw [(hc'.kept hf).1, hc'.kind_beq_eq hf (by decide) (by decide)]
    rw [hdefault]
  · have hfalse : (x.kind == .switchSection && !x.isToken) = false := by
      rw [Bool.eq_false_iff]
      intro htrue
      rw [Bool.and_eq_true, beq_iff_eq, Bool.not_eq_true'] at htrue
      exact hsection htrue
    rw [hfalse]
    rfl

/-- New sections go to the same place in what became of a switch. -/
theorem exists_anchor?_eq {keyword expression brace : Element} {before after : List Element}
    (hparts : SwitchParts x keyword before expression after brace)
    (hcs : y.children.map shape = x.children.map r.revise)
    (h : ∀ c ∈ x.children, ∀ z, Below c z → Touch r spans z) :
    ∃ pre anchor rest pre' anchor' rest', x.children = pre ++ anchor :: rest ∧
      anchor? x = some anchor ∧ expression ∈ pre ∧ y.children = pre' ++ anchor' :: rest' ∧
      anchor? y = some anchor' ∧ pre'.map shape = pre.map r.revise ∧
      anchor'.shape = r.revise anchor ∧ rest'.map shape = rest.map r.revise := by
  have hdefault : ∀ c ∈ x.children, ∀ f : Element, f.shape = r.revise c →
      isDefaultSection f = isDefaultSection c := fun c hc f hf => isDefaultSection_eq (h c hc) hf
  have hbrace : ∀ c ∈ x.children, ∀ f : Element, f.shape = r.revise c →
      (f.kind == .closeBraceToken) = (c.kind == .closeBraceToken) :=
    fun c hc f hf => (h c hc c (.refl c)).kind_beq_eq hf (by decide) (by decide)
  rcases hfind : x.children.find? isDefaultSection with - | anchor
  · -- neither switch has a default section, and the closing brace is kept
    have hnone := find?_eq_none_of_map_shape_eq hcs hdefault hfind
    have hsome := hparts.find?_closeBrace
    obtain ⟨pre, rest, pre', anchor', rest', hx, hy, hpre, hanchor, hrest, hsome'⟩ :=
      exists_find?_eq hcs hbrace hsome
    refine ⟨pre, brace, rest, pre', anchor', rest', hx, ?_, ?_, hy, ?_, hpre, hanchor, hrest⟩
    · rw [anchor?_eq, hfind, hsome]
      rfl
    · exact hparts.mem_of_children_eq hx (.inr hparts.brace_kind)
    · rw [anchor?_eq, hnone, hsome']
      rfl
  · obtain ⟨pre, rest, pre', anchor', rest', hx, hy, hpre, hanchor, hrest, hfind'⟩ :=
      exists_find?_eq hcs hdefault hfind
    refine ⟨pre, anchor, rest, pre', anchor', rest', hx, ?_, ?_, hy, ?_, hpre, hanchor, hrest⟩
    · rw [anchor?_eq, hfind]
      rfl
    · exact hparts.mem_of_children_eq hx (.inl (List.find?_some hfind))
    · rw [anchor?_eq, hfind']
      rfl

/-- Whether a child of a switch is a section. -/
def isSection (c : Element) : Bool := c.kind == .switchSection && !c.isToken

/-- Whether a child of a section is a statement. -/
def isStatement (c : Element) : Bool := !c.isToken && !isLabel c.kind

theorem indents_eq (switch : Element) :
    indents switch = match switch.children.find? isSection with
      | some first =>
        ⟨first.leadingTrivia, ((first.children.find? isStatement).map leadingTrivia).getD
          (first.leadingTrivia ++ indentStep)⟩
      | none =>
        let closing := ((switch.children.find? (·.kind == .closeBraceToken)).map leadingTrivia).getD
          "\n"
        ⟨closing ++ indentStep, closing ++ indentStep ++ indentStep⟩ := by
  have hhead : switch.children.find? isSection = (sections switch).head? := by
    rw [sections, childNodes, List.filter_filter, List.head?_filter]
    rfl
  have hstatement : ∀ first : Element, first.childNodes.find? (!isLabel ·.kind)
      = first.children.find? isStatement := by
    intro first
    rw [childNodes, List.find?_filter]
    congr 1
    funext c
    rw [isStatement, Bool.decide_and, Bool.decide_eq_true, Bool.decide_eq_true]
  rw [hhead, indents]
  cases sections switch with
  | nil => rfl
  | cons first rest =>
    simp only [List.head?_cons, hstatement]

theorem isLabel_eq (h : Touch r spans x) (hy : y.shape = r.revise x) :
    isLabel y.kind = isLabel x.kind := by
  rcases (h.kept hy).2 with hkind | ⟨hx, hy⟩
  · rw [hkind]
  · rw [hx, hy]
    rfl

/-- New sections get the same indentation in what became of a switch. -/
theorem indents_eq_of_touch (hx : x.Placed) (hcs : y.children.map shape = x.children.map r.revise)
    (h : ∀ c ∈ x.children, ∀ z, Below c z → Touch r spans z) : indents y = indents x := by
  have htrivia : ∀ c ∈ x.children, ∀ f : Element, f.shape = r.revise c →
      f.leadingTrivia = c.leadingTrivia :=
    fun c hc f hf => leadingTrivia_eq_of_touch (hx.child hc) (h c hc) hf
  have hsection : ∀ c ∈ x.children, ∀ f : Element, f.shape = r.revise c →
      isSection f = isSection c := by
    intro c hc f hf
    have hc' := h c hc c (.refl c)
    rw [isSection, isSection, hc'.kind_beq_eq hf (by decide) (by decide), (hc'.kept hf).1]
  have hbrace : ∀ c ∈ x.children, ∀ f : Element, f.shape = r.revise c →
      (f.kind == .closeBraceToken) = (c.kind == .closeBraceToken) :=
    fun c hc f hf => (h c hc c (.refl c)).kind_beq_eq hf (by decide) (by decide)
  rw [indents_eq, indents_eq]
  rcases hfind : x.children.find? isSection with - | first
  · rw [find?_eq_none_of_map_shape_eq hcs hsection hfind, map_find?_eq hcs hbrace htrivia]
  · obtain ⟨_, _, _, first', _, -, -, -, hfirst, -, hfind'⟩ := exists_find?_eq hcs hsection hfind
    have hmem := List.mem_of_find?_eq_some hfind
    have hkind := List.find?_some hfind
    rw [isSection, Bool.and_eq_true, beq_iff_eq, Bool.not_eq_true'] at hkind
    -- sections are never touched themselves, so the statements are found among the same children
    have hcs' := (h first hmem first (.refl first)).children_of_section hkind.1 hkind.2 hfirst
    have hstatement : (first'.children.find? isStatement).map leadingTrivia
        = (first.children.find? isStatement).map leadingTrivia := by
      apply map_find?_eq hcs'
      · intro c hc f hf
        have hc' := h first hmem c (.of_child hc)
        rw [isStatement, isStatement, (hc'.kept hf).1, isLabel_eq hc' hf]
      · intro c hc f hf
        exact leadingTrivia_eq_of_touch ((hx.child hmem).child hc)
          (fun z hz => h first hmem z (.child hc hz)) hf
    rw [hfind']
    simp only [hstatement, htrivia first hmem first' hfirst]

end Reading

end Revision

end TreeLint
