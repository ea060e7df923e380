/-
TreeLint/Proofs/Tree/Renumbering.lean

Trees whose slots have other numbers.

A host numbers the slots of a tree as it likes, and may leave slots in the
table that the root does not reach.  `Element.renumber` gives the elements of
an ordered tree other numbers and changes nothing else, so every question
about an element has the same answer after it, up to the new numbers: one
equation for each question.

On tables, a renumbering is a map of slot numbers that takes the slots the
root reaches to the slots of the other table, with their lists of children,
and root to root (`Tree.Renumbering`).  The rest of either table is arbitrary.
Two elements go together then if their numbers do, and so do their children;
as spans follow from widths, which do not depend on numbers, the ordered tree
of the one table is that of the other one, renumbered
(`Tree.renumbering_iff`).

A rewriting without edits keeps the shape of the tree.  Elements of the same
shape go together in document order, so it is a renumbering as well
(`Tree.exists_renumbering_of_shape_eq`).
-/
import TreeLint.Proofs.Tree.Copies
import TreeLint.Tree.Query

namespace TreeLint

namespace Element

/-! ### Other numbers -/

mutual

/-- The element, with other numbers. -/
def renumber (ρ : NodeId → NodeId) : Element → Element
  | token l t => token { l with id := ρ l.id } t
  | node l cs => node { l with id := ρ l.id } (renumberAll ρ cs)

/-- Several elements, with other numbers. -/
def renumberAll (ρ : NodeId → NodeId) : List Element → List Element
  | [] => []
  | c :: cs => c.renumber ρ :: renumberAll ρ cs

end

variable (ρ : NodeId → NodeId)

theorem renumberAll_eq (cs : List Element) : renumberAll ρ cs = cs.map (renumber ρ) := by
  induction cs with
  | nil => rfl
  | cons c cs ih => rw [renumberAll, ih, List.map_cons]

@[simp] theorem renumber_token (l : Label) (t : Token) :
    (token l t).renumber ρ = token { l with id := ρ l.id } t := by
  rw [renumber]

@[simp] theorem renumber_node (l : Label) (cs : List Element) :
    (node l cs).renumber ρ = node { l with id := ρ l.id } (cs.map (renumber ρ)) := by
  rw [renumber, renumberAll_eq]

/-! ### Parts -/

variable (e : Element)

@[simp] theorem id_renumber : (e.renumber ρ).id = ρ e.id := by
  cases e <;> simp

@[simp] theorem kind_renumber : (e.renumber ρ).kind = e.kind := by
  cases e <;> simp

@[simp] theorem span_renumber : (e.renumber ρ).span = e.span := by
  cases e <;> simp

@[simp] theorem token?_renumber : (e.renumber ρ).token? = e.token? := by
  cases e <;> simp

@[simp] theorem isToken_renumber : (e.renumber ρ).isToken = e.isToken := by
  rw [isToken, token?_renumber, isToken]

@[simp] theorem tokenText_renumber : (e.renumber ρ).tokenText = e.tokenText := by
  rw [tokenText, token?_renumber, tokenText]

@[simp] theorem children_renumber : (e.renumber ρ).children = e.children.map (renumber ρ) := by
  cases e <;> simp

/-- A question about elements that has the same answer after renumbering picks the same ones from
renumbered elements. -/
theorem filter_map_renumber {p : Element → Bool} (hp : ∀ e, p (renumber ρ e) = p e)
    (cs : List Element) :
    (cs.map (renumber ρ)).filter p = (cs.filter p).map (renumber ρ) := by
  rw [List.filter_map]
  exact congrArg (List.map _) (List.filter_congr fun c _ => hp c)

theorem find?_map_renumber {p : Element → Bool} (hp : ∀ e, p (renumber ρ e) = p e)
    (cs : List Element) :
    (cs.map (renumber ρ)).find? p = (cs.find? p).map (renumber ρ) := by
  rw [List.find?_map]
  exact congrArg (fun q => (cs.find? q).map _) (funext hp)

theorem mapM_map_renumber {α : Type} {f g : Element → Option α} {cs : List Element}
    (h : ∀ c ∈ cs, g (c.renumber ρ) = f c) : (cs.map (renumber ρ)).mapM g = cs.mapM f := by
  have hcs : List.Forall₂ (fun c d => d = c.renumber ρ) cs (cs.map (renumber ρ)) :=
    List.forall₂_map_right_iff.mpr (List.forall₂_same.mpr fun _ _ => rfl)
  apply mapM_eq_of_forall₂ hcs
  rintro c hc _ rfl
  exact h c hc

@[simp] theorem childNodes_renumber : (e.renumber ρ).childNodes = e.childNodes.map (renumber ρ) := by
  rw [childNodes, children_renumber, filter_map_renumber ρ (by simp), childNodes]

@[simp] theorem childOfKind?_renumber (kind : Kind) :
    (e.renumber ρ).childOfKind? kind = (e.childOfKind? kind).map (renumber ρ) := by
  rw [childOfKind?, children_renumber, find?_map_renumber ρ (by simp), childOfKind?]

@[simp] theorem hasModifier_renumber (kind : Kind) :
    (e.renumber ρ).hasModifier kind = e.hasModifier kind := by
  simp [hasModifier, Function.comp_def]

/-! ### Walks and places -/

@[simp] theorem shape_renumber : (e.renumber ρ).shape = e.shape := by
  induction e using Element.induction with
  | token l t => simp
  | node l cs ih =>
    rw [renumber_node, shape_node, shape_node, List.map_map]
    exact congrArg (Shape.node l.kind) (List.map_congr_left ih)

@[simp] theorem fullText_renumber : (e.renumber ρ).fullText = e.fullText := by
  rw [← fullText_shape, shape_renumber, fullText_shape]

@[simp] theorem leadingTrivia_renumber : (e.renumber ρ).leadingTrivia = e.leadingTrivia := by
  rw [← leadingTrivia_shape, shape_renumber, leadingTrivia_shape]

@[simp] theorem preorder_renumber : (e.renumber ρ).preorder = e.preorder.map (renumber ρ) := by
  induction e using Element.induction with
  | token l t => simp
  | node l cs ih =>
    simp only [renumber_node, preorder_node, List.map_cons, List.flatMap_map, List.map_flatMap]
    exact congrArg _ (List.flatMap_congr ih)

theorem place_renumber (o : Nat) : (e.renumber ρ).place o = (e.place o).renumber ρ := by
  induction e using Element.induction generalizing o with
  | token l t => simp [place]
  | node l cs ih =>
    have hcs : ∀ o, placeAll o (cs.map (renumber ρ)) = (placeAll o cs).map (renumber ρ) := by
      induction cs with
      | nil => exact fun o => rfl
      | cons c cs ihcs =>
        intro o
        rw [List.map_cons, placeAll, placeAll, List.map_cons, ih c List.mem_cons_self, width_eq,
          fullText_renumber, ← width_eq, ihcs fun d hd => ih d (List.mem_cons_of_mem c hd)]
    -- width and first token are read off the text and the shape
    have hwidth : widthAll (cs.map (renumber ρ)) = widthAll cs := by
      have := fullText_renumber ρ (node l cs)
      rw [renumber_node, fullText_node, fullText_node] at this
      rw [widthAll_eq, this, widthAll_eq]
    have hfirst : (firstTokenOf? (cs.map (renumber ρ))).bind token?
        = (firstTokenOf? cs).bind token? := by
      have hlead : (renumber ρ (node l cs)).leadingToken? = (node l cs).leadingToken? := by
        rw [← leadingToken?_shape, shape_renumber, leadingToken?_shape]
      rwa [renumber_node, leadingToken?_node, leadingToken?_node, ← bind_firstTokenOf?,
        ← bind_firstTokenOf?] at hlead
    rw [renumber_node, place, place, renumber_node, hcs, hwidth, hfirst]

theorem nodeAt?_renumber (s : Span) :
    (e.renumber ρ).nodeAt? s = (e.nodeAt? s).map (renumber ρ) := by
  induction e using Element.induction with
  | token l t => simp [nodeAt?]
  | node l cs ih =>
    have hcs : nodeAtIn? s (cs.map (renumber ρ)) = (nodeAtIn? s cs).map (renumber ρ) := by
      induction cs with
      | nil => rfl
      | cons c cs ihcs =>
        rw [List.map_cons, nodeAtIn?, nodeAtIn?, isToken_renumber, span_renumber,
          ih c List.mem_cons_self, ihcs fun d hd => ih d (List.mem_cons_of_mem c hd)]
        split <;> rfl
    rw [renumber_node, nodeAt?, nodeAt?, hcs]
    rcases nodeAtIn? s cs with - | x
    · show (if l.span = s then _ else _) = Option.map _ (if l.span = s then _ else _)
      split
      · rw [Option.map_some, renumber_node]
      · rfl
    · rfl

/-- What lies in an element is renumbered with it. -/
theorem Lineage.renumber {e x : Element} {above : List Element} (h : Lineage e x above) :
    Lineage (e.renumber ρ) (x.renumber ρ) (above.map (Element.renumber ρ)) := by
  induction h with
  | refl e => exact .refl _
  | child hc _ ih =>
    rw [List.map_append]
    refine .child ?_ ih
    rw [children_renumber]
    exact List.mem_map_of_mem hc

theorem Below.renumber {e x : Element} (h : Below e x) : Below (e.renumber ρ) (x.renumber ρ) := by
  obtain ⟨above, hlineage⟩ := h.exists_lineage
  exact (hlineage.renumber ρ).toBelow

/-! ### Questions about the analysed language -/

@[simp] theorem identifierText?_renumber : (e.renumber ρ).identifierText? = e.identifierText? := by
  simp [identifierText?, Function.comp_def]

@[simp] theorem switchExpression?_renumber :
    (e.renumber ρ).switchExpression? = e.switchExpression?.map (renumber ρ) := by
  rw [switchExpression?, kind_renumber, childNodes_renumber, find?_map_renumber ρ (by simp),
    switchExpression?]
  split <;> rfl

theorem peelParentheses_renumber :
    (e.renumber ρ).peelParentheses = e.peelParentheses.renumber ρ := by
  induction e using Element.induction with
  | token l t => simp [peelParentheses]
  | node l cs ih =>
    have hcs : peelFirstNode? (cs.map (renumber ρ)) = (peelFirstNode? cs).map (renumber ρ) := by
      induction cs with
      | nil => rfl
      | cons c cs ihcs =>
        rw [List.map_cons, peelFirstNode?, peelFirstNode?, isToken_renumber,
          ih c List.mem_cons_self, ihcs fun d hd => ih d (List.mem_cons_of_mem c hd)]
        split <;> rfl
    rw [renumber_node, peelParentheses, peelParentheses, hcs]
    show (if l.kind = _ then _ else _) = Element.renumber ρ (if l.kind = _ then _ else _)
    split
    · cases peelFirstNode? cs with
      | none => simp
      | some x => rfl
    · simp

@[simp] theorem hasTestAttribute_renumber :
    (e.renumber ρ).hasTestAttribute = e.hasTestAttribute := by
  rw [hasTestAttribute, childOfKind?_renumber, hasTestAttribute]
  cases e.childOfKind? .attributeList with
  | none => rfl
  | some list =>
    simp only [Option.map_some, childNodes_renumber]
    rw [filter_map_renumber ρ (by simp), List.filterMap_map]
    congr 2
    funext a
    simp [Option.bind_map]

end Element

/-! ### Placing -/

namespace Element

theorem token?_eq_of_shape_eq {e f : Element} (h : f.shape = e.shape) : f.token? = e.token? := by
  cases e with
  | token l t =>
    cases f with
    | token l' t' =>
      rw [shape_token, shape_token, Shape.token.injEq] at h
      rw [token?_token, token?_token, h.2]
    | node l' ds => rw [shape_token, shape_node] at h; cases h
  | node l cs =>
    cases f with
    | token l' t' => rw [shape_token, shape_node] at h; cases h
    | node l' ds => rfl

theorem width_eq_of_place_eq {e f : Element} (h : ∀ o, f.place o = e.place o) :
    f.width = e.width := by
  rw [← width_place 0, h, width_place]

/-- The spans of a node follow from those of its children. -/
theorem place_node_congr {l l' : Label} {cs ds : List Element} (hid : l'.id = l.id)
    (hkind : l'.kind = l.kind) (h : ∀ o, placeAll o ds = placeAll o cs) (o : Nat) :
    (node l' ds).place o = (node l cs).place o := by
  have hwidth : widthAll ds = widthAll cs := by
    rw [widthAll_eq, ← fullTextAll_placeAll 0, h, fullTextAll_placeAll, widthAll_eq]
  have hfirst : (firstTokenOf? ds).bind token? = (firstTokenOf? cs).bind token? := by
    rw [bind_firstTokenOf?, ← findSome?_leadingToken?_placeAll 0, h,
      findSome?_leadingToken?_placeAll, bind_firstTokenOf?]
  rw [place, place, h, hwidth, hfirst, hid, hkind]

end Element

/-! ### Tables -/

/-- The slot, with other numbers for its children. -/
def Slot.renumber (ρ : NodeId → NodeId) (s : Slot) : Slot :=
  { s with children := s.children.map ρ }

namespace Tree

open Element

variable {ρ : NodeId → NodeId} {t t' : Tree} {x : Element}

/-- The slots that the root of `t` reaches are slots of `t'` under the numbers that `ρ` gives them,
and root goes with root.  Nothing is said of other slots, in either table; and no two slots that the
root reaches get the same number, because `t'` is a tree (`Renumbering.inj_on`). -/
structure Renumbering (ρ : NodeId → NodeId) (t t' : Tree) : Prop where
  root : t'.root = ρ t.root
  slots : ∀ id s, t.Reachable id → t.slots[id]? = some s → t'.slots[ρ id]? = some (s.renumber ρ)

/-- The first element, renumbered, is the second one, but for the spans: what goes together has the
same kind, the same token, the number that `ρ` gives it, and children that go together. -/
structure Renumbers (ρ : NodeId → NodeId) (R : Element → Element → Prop) : Prop where
  id_eq : ∀ {a b}, R a b → b.id = ρ a.id
  kind_eq : ∀ {a b}, R a b → b.kind = a.kind
  token?_eq : ∀ {a b}, R a b → b.token? = a.token?
  children : ∀ {a b}, R a b → List.Forall₂ R a.children b.children

namespace Renumbers

variable {R : Element → Element → Prop} (hR : Renumbers ρ R)
include hR

/-- Elements that go together are the same once they are placed. -/
theorem place_eq {e f : Element} (h : R e f) (o : Nat) :
    f.place o = (e.renumber ρ).place o := by
  induction e using Element.induction generalizing f o with
  | token l t =>
    have htoken := hR.token?_eq h
    cases f with
    | node l' ds => cases htoken
    | token l' t' =>
      have hid : l'.id = ρ l.id := hR.id_eq h
      have hkind : l'.kind = l.kind := hR.kind_eq h
      obtain rfl : t' = t := Option.some.inj htoken
      rw [renumber_token, place, place, hid, hkind]
  | node l cs ih =>
    have htoken := hR.token?_eq h
    cases f with
    | token l' t' => cases htoken
    | node l' ds =>
      have hid : l'.id = ρ l.id := hR.id_eq h
      have hkind : l'.kind = l.kind := hR.kind_eq h
      have hcs : List.Forall₂ R cs ds := hR.children h
      have hplace : ∀ o, placeAll o ds = placeAll o (cs.map (Element.renumber ρ)) := by
        clear h htoken
        induction hcs with
        | nil => exact fun o => rfl
        | @cons c d cs ds hcd _ ihcs =>
          intro o
          have hd := ih c List.mem_cons_self hcd
          rw [List.map_cons, placeAll, placeAll, hd, width_eq_of_place_eq hd,
            ihcs fun c' hc' => ih c' (List.mem_cons_of_mem c hc')]
      rw [renumber_node]
      apply place_node_congr _ _ hplace
      · exact hid
      · exact hkind

/-- Two trees whose tops go together. -/
theorem top_eq (h : R t.top t'.top) : t'.top = t.top.renumber ρ := by
  have hplaced : ∀ u : Tree, u.top.place 0 = u.top := by
    intro u
    have := u.placed_top
    rwa [Placed, full_start_top] at this
  rw [← hplaced t', hR.place_eq h, place_renumber, hplaced t]

end Renumbers

namespace Renumbering

/-- What has the same number, up to the renumbering, goes together. -/
theorem renumbers (h : t.Renumbering ρ t') :
    Renumbers ρ fun a b => Below t.top a ∧ Below t'.top b ∧ b.id = ρ a.id := by
  have hslot : ∀ {a b : Element}, Below t.top a → Below t'.top b → b.id = ρ a.id →
      b.slot = a.slot.renumber ρ := by
    intro a b ha hb hid
    have hs := h.slots a.id a.slot (reachable_iff.mpr ⟨a, ha, rfl⟩) (slot_eq_of_below_top ha)
    rw [← hid, slot_eq_of_below_top hb] at hs
    exact Option.some.inj hs
  refine ⟨fun hab => hab.2.2, ?_, ?_, ?_⟩
  · rintro a b ⟨ha, hb, hid⟩
    exact congrArg Slot.kind (hslot ha hb hid)
  · rintro a b ⟨ha, hb, hid⟩
    exact congrArg Slot.token (hslot ha hb hid)
  · rintro a b ⟨ha, hb, hid⟩
    have hcs : b.children.map Element.id = (a.children.map Element.id).map ρ :=
      congrArg Slot.children (hslot ha hb hid)
    rw [List.map_map] at hcs
    apply forall₂_of_map_eq hcs
    intro c hc d hd hcd
    exact ⟨ha.trans (.of_child hc), hb.trans (.of_child hd), hcd⟩

end Renumbering

/-- A table is renumbered exactly if its ordered tree is. -/
theorem renumbering_iff : Renumbering ρ t t' ↔ t'.top = t.top.renumber ρ := by
  constructor
  · intro h
    refine h.renumbers.top_eq ⟨.refl _, .refl _, ?_⟩
    rw [id_top, id_top, h.root]
  · intro h
    refine ⟨?_, ?_⟩
    · rw [← id_top, h, id_renumber, id_top]
    · intro id s hid hs
      obtain ⟨x, hx, rfl⟩ := reachable_iff.mp hid
      obtain rfl := Option.some.inj ((slot_eq_of_below_top hx).symm.trans hs)
      have hx' : Below t'.top (x.renumber ρ) := h ▸ hx.renumber ρ
      have hs' := slot_eq_of_below_top hx'
      rw [id_renumber] at hs'
      rw [hs']
      simp [slot, Slot.renumber, Function.comp_def]

namespace Renumbering

theorem top_eq (h : Renumbering ρ t t') : t'.top = t.top.renumber ρ := renumbering_iff.mp h

theorem below (h : Renumbering ρ t t') (hx : Below t.top x) :
    Below t'.top (x.renumber ρ) := by
  rw [h.top_eq]
  exact hx.renumber ρ

/-- Different slots that the root reaches keep different numbers. -/
theorem inj_on (h : Renumbering ρ t t') {i j : NodeId} (hi : t.Reachable i) (hj : t.Reachable j)
    (hij : ρ i = ρ j) : i = j := by
  obtain ⟨x, hx, rfl⟩ := reachable_iff.mp hi
  obtain ⟨y, hy, rfl⟩ := reachable_iff.mp hj
  have hnodup := t'.nodup_preorder
  rw [h.top_eq, preorder_renumber, List.map_map] at hnodup
  have hxy : x = y := List.inj_on_of_nodup_map hnodup (mem_preorder_iff.mpr hx)
    (mem_preorder_iff.mpr hy) (by simpa using hij)
  rw [hxy]

/-- Going up from a renumbered element, one meets the renumbered elements. -/
theorem ancestors_eq (h : Renumbering ρ t t') (hx : Below t.top x) :
    t'.ancestors (ρ x.id) = (t.ancestors x.id).map (Element.renumber ρ) := by
  obtain ⟨above, hlineage⟩ := hx.exists_lineage
  have hlineage' := hlineage.renumber ρ
  rw [← h.top_eq] at hlineage'
  rw [Tree.ancestors_eq hx hlineage, ← id_renumber ρ x,
    Tree.ancestors_eq (h.below hx) hlineage']

/-- In document order, the element at a place is the renumbered one. -/
theorem zip_preorder_eq (h : Renumbering ρ t t') :
    t.top.preorder.zip t'.top.preorder = t.top.preorder.map fun x => (x, x.renumber ρ) := by
  rw [h.top_eq, preorder_renumber, List.map_prod_left_eq_zip]

theorem text_eq (h : Renumbering ρ t t') : t'.text = t.text := by
  rw [text, h.top_eq, fullText_renumber, text]

theorem nodeAt?_eq (h : Renumbering ρ t t') (s : Span) :
    t'.nodeAt? s = (t.nodeAt? s).map (Element.renumber ρ) := by
  rw [nodeAt?, nodeAt?, h.top_eq, span_renumber, nodeAt?_renumber]
  split <;> rfl

theorem isInTestMethod_eq (h : Renumbering ρ t t') (hx : Below t.top x) :
    t'.isInTestMethod (x.renumber ρ) = t.isInTestMethod x := by
  rw [isInTestMethod, id_renumber, h.ancestors_eq hx, ← List.map_cons,
    find?_map_renumber ρ (by simp), isInTestMethod]
  rw [Option.any_map]
  exact congrArg (fun p => Option.any p _) (funext (hasTestAttribute_renumber ρ))

end Renumbering

/-! ### Trees of the same shape -/

/-- Elements of the same shape go together all the way down. -/
theorem tracks_shape : Tracks [] [] fun a b => b.shape = a.shape where
  left _ := ⟨isOutside_nil _, fun _ _ => .inl (isOutside_nil _)⟩
  right _ := ⟨isOutside_nil _, fun _ _ => .inl (isOutside_nil _)⟩
  children {a b} hab := by
    rw [List.filter_eq_self.mpr fun _ _ => isOutside_nil _,
      List.filter_eq_self.mpr fun _ _ => isOutside_nil _]
    exact forall₂_of_map_eq (of_shape_eq hab).2.2 fun _ _ _ _ h => h

theorem length_preorder_eq_of_shape_eq {e f : Element} (h : f.shape = e.shape) :
    e.preorder.length = f.preorder.length := by
  rw [← outside_nil, ← outside_nil]
  exact (tracks_shape.forall₂_outside h).length_eq

/-- A tree with the shape of another one is a renumbering of it: each element gets the number of the
one at the same place in document order. -/
theorem exists_renumbering_of_shape_eq (h : t'.top.shape = t.top.shape) :
    ∃ ρ, Renumbering ρ t t' := by
  let pairs := copies [] [] t.top t'.top
  let ρ : NodeId → NodeId := fun id => ((pairs.find? (·.1.id == id)).map (·.2.id)).getD 0
  have hshape : ∀ {a b}, (a, b) ∈ pairs → b.shape = a.shape := tracks_shape.of_mem_copies h
  have hids : (pairs.map (·.1.id)).Nodup := by
    have hlength := (tracks_shape.forall₂_outside h).length_eq
    have hpairs : pairs.map (·.1.id) = (t.top.outside []).map Element.id := by
      rw [← List.map_fst_zip hlength.le, List.map_map]
      rfl
    rw [hpairs, outside_nil]
    exact t.nodup_preorder
  have hρ : ∀ {a b}, (a, b) ∈ pairs → b.id = ρ a.id := by
    intro a b hab
    rcases hfind : pairs.find? (·.1.id == a.id) with - | p
    · rw [List.find?_eq_none] at hfind
      exact absurd (beq_self_eq_true a.id) (hfind (a, b) hab)
    · have hid : p.1.id = a.id := by simpa using List.find?_some hfind
      obtain rfl : p = (a, b) :=
        List.inj_on_of_nodup_map hids (List.mem_of_find?_eq_some hfind) hab hid
      show b.id = ((pairs.find? (·.1.id == a.id)).map (·.2.id)).getD 0
      rw [hfind]
      rfl
  have hR : Renumbers ρ fun a b => (a, b) ∈ pairs := by
    refine ⟨hρ, fun hab => (of_shape_eq (hshape hab)).2.1, fun hab => ?_, fun hab => ?_⟩
    · exact token?_eq_of_shape_eq (hshape hab)
    · have hcs := tracks_shape.forall₂_children h hab
      rwa [List.filter_eq_self.mpr fun _ _ => isOutside_nil _,
        List.filter_eq_self.mpr fun _ _ => isOutside_nil _] at hcs
  refine ⟨ρ, renumbering_iff.mpr (hR.top_eq ?_)⟩
  show (t.top, t'.top) ∈ copies [] [] t.top t'.top
  rw [tracks_shape.copies_eq h]
  exact List.mem_cons_self

end Tree

end TreeLint
