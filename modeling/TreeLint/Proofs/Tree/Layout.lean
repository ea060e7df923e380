/-
TreeLint/Proofs/Tree/Layout.lean

Where elements stand in the rendered text.

`place` computes spans from widths, `fullText` renders text; the two walks
know nothing of each other.  An element is *placed* when its spans are those
that `place` gives it where it stands.  Every element below a placed one is
placed, and its text stands in the text of the whole exactly at its full span:

    e.fullText = before ++ x.fullText ++ after,
    x.full.start = e.full.start + |before|.

The span proper leaves out the trivia of the first token.  An element without
tokens renders to nothing, so leaving out nothing is right for it, too.
-/
import TreeLint.Proofs.Tree.Walks

namespace TreeLint

namespace Element

/-! ### Widths are sizes of texts -/

theorem widthAll_eq_of_forall {cs : List Element}
    (h : ∀ c ∈ cs, c.width = c.fullText.utf8ByteSize) :
    widthAll cs = (fullTextAll cs).utf8ByteSize := by
  induction cs with
  | nil => rfl
  | cons c cs ih =>
    rw [widthAll, fullTextAll, String.utf8ByteSize_append, h c List.mem_cons_self,
      ih fun d hd => h d (List.mem_cons_of_mem c hd)]

/-- The width of an element is the number of bytes of its text. -/
theorem width_eq (e : Element) : e.width = e.fullText.utf8ByteSize := by
  induction e using Element.induction with
  | token l t => rw [width, Token.width, fullText_token, String.utf8ByteSize_append]
  | node l cs ih => rw [width, fullText_node, widthAll_eq_of_forall ih]

theorem widthAll_eq (cs : List Element) : widthAll cs = (fullTextAll cs).utf8ByteSize :=
  widthAll_eq_of_forall fun c _ => c.width_eq

/-! ### The trivia of the first token -/

/-- An element without tokens renders to nothing. -/
theorem fullText_of_leadingToken?_eq_none {e : Element} (h : e.leadingToken? = none) :
    e.fullText = "" := by
  induction e using Element.induction with
  | token l t => simp [leadingToken?_token] at h
  | node l cs ih =>
    rw [leadingToken?_node, List.findSome?_eq_none_iff] at h
    rw [fullText_node]
    induction cs with
    | nil => rfl
    | cons c cs ihcs =>
      rw [fullTextAll, ih c List.mem_cons_self (h c List.mem_cons_self),
        ihcs (fun d hd => ih d (List.mem_cons_of_mem c hd))
          (fun d hd => h d (List.mem_cons_of_mem c hd)), String.empty_append]

/-- The rendered text starts with the trivia of the first token. -/
theorem exists_fullText_eq_leadingTrivia_append (e : Element) :
    ∃ rest, e.fullText = e.leadingTrivia ++ rest := by
  induction e using Element.induction with
  | token l t =>
    refine ⟨t.text, ?_⟩
    rw [fullText_token, leadingTrivia_eq, leadingToken?_token]
    rfl
  | node l cs ih =>
    rw [fullText_node, leadingTrivia_eq, leadingToken?_node]
    induction cs with
    | nil => exact ⟨"", rfl⟩
    | cons c cs ihcs =>
      rw [fullTextAll, List.findSome?_cons]
      rcases h : c.leadingToken? with - | t
      · rw [fullText_of_leadingToken?_eq_none h, String.empty_append]
        exact ihcs fun d hd => ih d (List.mem_cons_of_mem c hd)
      · obtain ⟨rest, hrest⟩ := ih c List.mem_cons_self
        rw [leadingTrivia_eq, h] at hrest
        exact ⟨rest ++ fullTextAll cs, by rw [hrest, String.append_assoc]⟩

/-- The rendered text is the trivia of the first token, followed by the text proper. -/
theorem fullText_eq_leadingTrivia_append_text (e : Element) :
    e.fullText = e.leadingTrivia ++ e.text := by
  obtain ⟨rest, hrest⟩ := e.exists_fullText_eq_leadingTrivia_append
  have htext : e.text = rest := by
    rw [text, hrest, String.toList_append, List.drop_left, String.ofList_toList]
  rw [htext, hrest]

/-! ### Placing changes nothing but spans -/

@[simp] theorem id_place (o : Nat) (e : Element) : (e.place o).id = e.id := by
  cases e <;> rfl

@[simp] theorem kind_place (o : Nat) (e : Element) : (e.place o).kind = e.kind := by
  cases e <;> rfl

@[simp] theorem token?_place (o : Nat) (e : Element) : (e.place o).token? = e.token? := by
  cases e <;> rfl

@[simp] theorem isToken_place (o : Nat) (e : Element) : (e.place o).isToken = e.isToken := by
  cases e <;> rfl

theorem children_place (o : Nat) (e : Element) :
    (e.place o).children = placeAll o e.children := by
  cases e <;> rfl

/-- A function that placing does not change can be mapped over placed elements. -/
theorem map_placeAll {α : Type} {f : Element → α} {cs : List Element}
    (h : ∀ c ∈ cs, ∀ o, f (c.place o) = f c) (o : Nat) : (placeAll o cs).map f = cs.map f := by
  induction cs generalizing o with
  | nil => rfl
  | cons c cs ih =>
    rw [placeAll, List.map_cons, List.map_cons, h c List.mem_cons_self,
      ih fun d hd => h d (List.mem_cons_of_mem c hd)]

@[simp] theorem shape_place (o : Nat) (e : Element) : (e.place o).shape = e.shape := by
  induction e using Element.induction generalizing o with
  | token l t => rfl
  | node l cs ih =>
    rw [place, shape_node, shape_node, map_placeAll ih]

@[simp] theorem fullText_place (o : Nat) (e : Element) : (e.place o).fullText = e.fullText := by
  rw [← fullText_shape, shape_place, fullText_shape]

@[simp] theorem width_place (o : Nat) (e : Element) : (e.place o).width = e.width := by
  rw [width_eq, fullText_place, width_eq]

@[simp] theorem leadingToken?_place (o : Nat) (e : Element) :
    (e.place o).leadingToken? = e.leadingToken? := by
  rw [← leadingToken?_shape, shape_place, leadingToken?_shape]

theorem fullTextAll_placeAll (o : Nat) (cs : List Element) :
    fullTextAll (placeAll o cs) = fullTextAll cs := by
  induction cs generalizing o with
  | nil => rfl
  | cons c cs ih => rw [placeAll, fullTextAll, fullTextAll, fullText_place, ih]

theorem placeAll_append (o : Nat) (cs ds : List Element) :
    placeAll o (cs ++ ds) = placeAll o cs ++ placeAll (o + widthAll cs) ds := by
  induction cs generalizing o with
  | nil => rfl
  | cons c cs ih => rw [List.cons_append, placeAll, placeAll, ih, widthAll, Nat.add_assoc]; rfl

@[simp] theorem length_placeAll (o : Nat) (cs : List Element) :
    (placeAll o cs).length = cs.length := by
  induction cs generalizing o with
  | nil => rfl
  | cons c cs ih => rw [placeAll, List.length_cons, ih, List.length_cons]

theorem findSome?_leadingToken?_placeAll (o : Nat) (cs : List Element) :
    (placeAll o cs).findSome? leadingToken? = cs.findSome? leadingToken? := by
  induction cs generalizing o with
  | nil => rfl
  | cons c cs ih => rw [placeAll, List.findSome?_cons, List.findSome?_cons, leadingToken?_place, ih]

/-- Placing again is placing once. -/
theorem place_place (o o' : Nat) (e : Element) : (e.place o).place o' = e.place o' := by
  induction e using Element.induction generalizing o o' with
  | token l t => rfl
  | node l cs ih =>
    have hcs : ∀ a b, placeAll b (placeAll a cs) = placeAll b cs := by
      intro a b
      induction cs generalizing a b with
      | nil => rfl
      | cons c cs ihcs =>
        rw [placeAll, placeAll, placeAll, ih c List.mem_cons_self, width_place,
          ihcs fun d hd => ih d (List.mem_cons_of_mem c hd)]
    have hwidth : widthAll (placeAll o cs) = widthAll cs := by
      rw [widthAll_eq, fullTextAll_placeAll, widthAll_eq]
    have hfirst : (firstTokenOf? (placeAll o cs)).bind token? = (firstTokenOf? cs).bind token? := by
      rw [bind_firstTokenOf?, bind_firstTokenOf?, findSome?_leadingToken?_placeAll]
    rw [place, place, place, hcs, hwidth, hfirst]

/-! ### Placed elements -/

/-- The spans of the element, and of everything in it, are those of its place. -/
def Placed (e : Element) : Prop := e.place e.full.start = e

theorem full_place (o : Nat) (e : Element) : (e.place o).full = ⟨o, o + e.width⟩ := by
  cases e with
  | token l t => rw [place, width, full_token]
  | node l cs => rw [place, width, full_node]

theorem placed_place (o : Nat) (e : Element) : (e.place o).Placed := by
  rw [Placed, full_place, place_place]

namespace Placed

variable {e x : Element}

/-- The full span of a placed element is as wide as its text. -/
theorem full_eq (h : e.Placed) :
    e.full = ⟨e.full.start, e.full.start + e.fullText.utf8ByteSize⟩ := by
  have hfull := full_place e.full.start e
  rw [h] at hfull
  rw [← width_eq]
  exact hfull

theorem stop_eq (h : e.Placed) : e.full.stop = e.full.start + e.fullText.utf8ByteSize := by
  rw [h.full_eq]

/-- The span proper is the full span without the trivia of the first token. -/
theorem span_eq (h : e.Placed) :
    e.span = ⟨e.full.start + e.leadingTrivia.utf8ByteSize, e.full.stop⟩ := by
  rcases ht : e.leadingToken? with - | t
  · -- an element without a token has no text, and its span is at its end
    have hspan : e.span = ⟨e.full.stop, e.full.stop⟩ := by
      cases e with
      | token l t => simp at ht
      | node l cs =>
        rw [leadingToken?_node] at ht
        rw [← h, place, span_node, full_node, bind_firstTokenOf?, ht]
        rfl
    have hstop := h.stop_eq
    rw [fullText_of_leadingToken?_eq_none ht] at hstop
    rw [hspan, leadingTrivia_eq, ht, hstop]
    rfl
  · have hspan : e.span = ⟨e.full.start + t.trivia.utf8ByteSize, e.full.stop⟩ := by
      cases e with
      | token l t' =>
        obtain rfl := Option.some.inj ((leadingToken?_token l t').symm.trans ht)
        rw [← h, place, span_token, full_token]
        rfl
      | node l cs =>
        rw [leadingToken?_node] at ht
        rw [← h, place, span_node, full_node, bind_firstTokenOf?, ht]
        rfl
    rw [hspan, leadingTrivia_eq, ht]
    rfl

/-- The children of a placed node, at their places. -/
theorem children_eq (h : e.Placed) : e.children = placeAll e.full.start e.children := by
  have hcs := children_place e.full.start e
  rw [h] at hcs
  exact hcs

/-- A child of a placed element stands after the texts of the children before it. -/
theorem child_eq (h : e.Placed) {pre post : List Element} {c : Element}
    (hcs : e.children = pre ++ c :: post) : c.place (e.full.start + widthAll pre) = c := by
  have hplaced := h.children_eq
  rw [hcs, placeAll_append, placeAll] at hplaced
  obtain ⟨-, htail⟩ := List.append_inj hplaced (by rw [length_placeAll])
  exact (List.cons.inj htail).1.symm

theorem child_start (h : e.Placed) {pre post : List Element} {c : Element}
    (hcs : e.children = pre ++ c :: post) :
    c.full.start = e.full.start + (fullTextAll pre).utf8ByteSize := by
  rw [← h.child_eq hcs, full_place, widthAll_eq]

theorem child (h : e.Placed) {c : Element} (hc : c ∈ e.children) : c.Placed := by
  obtain ⟨pre, post, hcs⟩ := List.append_of_mem hc
  rw [← h.child_eq hcs]
  exact placed_place _ _

theorem below (h : e.Placed) (hx : Below e x) : x.Placed := by
  induction hx with
  | refl => exact h
  | child hc _ ih => exact ih (h.child hc)

end Placed

/-- The text of an element is the texts of its children. -/
theorem fullText_eq_fullTextAll_children {e : Element} (h : e.isToken = false) :
    e.fullText = fullTextAll e.children := by
  cases e with
  | token l t => simp at h
  | node l cs => rw [fullText_node, children_node]

theorem isToken_of_mem_children {e c : Element} (h : c ∈ e.children) : e.isToken = false := by
  cases e with
  | token l t => simp at h
  | node l cs => rfl

/-- What lies in a placed element has its text where its full span says. -/
theorem Placed.exists_fullText_eq {e x : Element} (h : e.Placed) (hx : Below e x) :
    ∃ before after, e.fullText = before ++ x.fullText ++ after ∧
      x.full.start = e.full.start + before.utf8ByteSize := by
  induction hx with
  | refl e => exact ⟨"", "", by simp, by simp⟩
  | @child e c x hc hx ih =>
    obtain ⟨before, after, htext, hstart⟩ := ih (h.child hc)
    obtain ⟨pre, post, hcs⟩ := List.append_of_mem hc
    refine ⟨fullTextAll pre ++ before, after ++ fullTextAll post, ?_, ?_⟩
    · rw [fullText_eq_fullTextAll_children (isToken_of_mem_children hc), hcs, fullTextAll_append,
        fullTextAll, htext]
      simp only [String.append_assoc]
    · rw [hstart, h.child_start hcs, String.utf8ByteSize_append, Nat.add_assoc]

end Element

end TreeLint
