/-
TreeLint/Proofs/Tree/Walks.lean

The walks over an element, said without their mutual partners.

Every walk is a pair of functions, one on an element and one on a list of
elements.  Here the second one is expressed by an operation of lists, so that
a proof about a walk is one induction over elements (`Element.induction`) with
a statement about all children, and never a mutual one.

`Below e x` says that `x` lies in `e`, at the top or further down.  It is the
relational form of `preorder` (`mem_preorder_iff`), and the induction on it
follows the way from `e` down to `x`.
-/
import TreeLint.Proofs.Tree.Shape

namespace TreeLint

namespace Element

/-! ### Induction -/

/-- What holds of tokens, and of a node whenever it holds of all its children, holds of every
element. -/
@[elab_as_elim]
theorem induction {P : Element → Prop} (token : ∀ l t, P (.token l t))
    (node : ∀ l cs, (∀ c ∈ cs, P c) → P (.node l cs)) (e : Element) : P e := by
  refine @Element.rec P (fun cs => ∀ c ∈ cs, P c) token node ?_ ?_ e
  · intro c hc
    cases hc
  · intro c cs hc hcs x hx
    rcases List.mem_cons.mp hx with rfl | hx
    · exact hc
    · exact hcs x hx

/-! ### Parts -/

@[simp] theorem label_token (l : Label) (t : Token) : (token l t).label = l := rfl

@[simp] theorem label_node (l : Label) (cs : List Element) : (node l cs).label = l := rfl

@[simp] theorem id_token (l : Label) (t : Token) : (token l t).id = l.id := rfl

@[simp] theorem id_node (l : Label) (cs : List Element) : (node l cs).id = l.id := rfl

@[simp] theorem kind_token (l : Label) (t : Token) : (token l t).kind = l.kind := rfl

@[simp] theorem kind_node (l : Label) (cs : List Element) : (node l cs).kind = l.kind := rfl

@[simp] theorem full_token (l : Label) (t : Token) : (token l t).full = l.full := rfl

@[simp] theorem full_node (l : Label) (cs : List Element) : (node l cs).full = l.full := rfl

@[simp] theorem span_token (l : Label) (t : Token) : (token l t).span = l.span := rfl

@[simp] theorem span_node (l : Label) (cs : List Element) : (node l cs).span = l.span := rfl

@[simp] theorem isToken_token (l : Label) (t : Token) : (token l t).isToken = true := rfl

@[simp] theorem isToken_node (l : Label) (cs : List Element) : (node l cs).isToken = false := rfl

@[simp] theorem children_token (l : Label) (t : Token) : (token l t).children = [] := rfl

@[simp] theorem children_node (l : Label) (cs : List Element) : (node l cs).children = cs := rfl

@[simp] theorem token?_token (l : Label) (t : Token) : (token l t).token? = some t := rfl

@[simp] theorem token?_node (l : Label) (cs : List Element) : (node l cs).token? = none := rfl

/-- An element that is no token is a node. -/
theorem eq_node {e : Element} (h : e.isToken = false) : e = .node e.label e.children := by
  cases e with
  | token l t => simp at h
  | node l cs => rfl

/-! ### Walks over lists -/

theorem preorderAll_eq (cs : List Element) : preorderAll cs = cs.flatMap preorder := by
  induction cs with
  | nil => rfl
  | cons c cs ih => rw [preorderAll, ih, List.flatMap_cons]

/-- What adds nothing to a walk may be left out of it. -/
theorem flatMap_filter {α β : Type} {p : α → Bool} {g : α → List β} {xs : List α}
    (h : ∀ x ∈ xs, p x = true ∨ g x = []) : (xs.filter p).flatMap g = xs.flatMap g := by
  induction xs with
  | nil => rfl
  | cons x xs ih =>
    have hxs := ih fun y hy => h y (List.mem_cons_of_mem x hy)
    rw [List.filter_cons, List.flatMap_cons]
    split
    · rw [List.flatMap_cons, hxs]
    · rename_i hx
      rw [(h x List.mem_cons_self).resolve_left hx, hxs, List.nil_append]

theorem firstTokenOf?_eq (cs : List Element) : firstTokenOf? cs = cs.findSome? firstToken? := by
  induction cs with
  | nil => rfl
  | cons c cs ih =>
    rw [firstTokenOf?, ih, List.findSome?_cons]
    cases c.firstToken? <;> rfl

theorem findIn?_eq (id : NodeId) (cs : List Element) :
    findIn? id cs = cs.findSome? (find? id) := by
  induction cs with
  | nil => rfl
  | cons c cs ih =>
    rw [findIn?, ih, List.findSome?_cons]
    cases c.find? id <;> rfl

theorem shapeAll_eq (cs : List Element) : shapeAll cs = cs.map shape := by
  induction cs with
  | nil => rfl
  | cons c cs ih => rw [shapeAll, ih, List.map_cons]

theorem fullTextAll_append (cs ds : List Element) :
    fullTextAll (cs ++ ds) = fullTextAll cs ++ fullTextAll ds := by
  induction cs with
  | nil => simp [fullTextAll]
  | cons c cs ih => rw [List.cons_append, fullTextAll, fullTextAll, ih, String.append_assoc]

@[simp] theorem preorder_token (l : Label) (t : Token) :
    (token l t).preorder = [token l t] := by
  rw [preorder]

@[simp] theorem preorder_node (l : Label) (cs : List Element) :
    (node l cs).preorder = node l cs :: cs.flatMap preorder := by
  rw [preorder, preorderAll_eq]

@[simp] theorem firstToken?_token (l : Label) (t : Token) :
    (token l t).firstToken? = some (token l t) := by
  rw [firstToken?]

@[simp] theorem firstToken?_node (l : Label) (cs : List Element) :
    (node l cs).firstToken? = cs.findSome? firstToken? := by
  rw [firstToken?, firstTokenOf?_eq]

@[simp] theorem shape_token (l : Label) (t : Token) : (token l t).shape = .token l.kind t := by
  rw [shape]

@[simp] theorem shape_node (l : Label) (cs : List Element) :
    (node l cs).shape = .node l.kind (cs.map shape) := by
  rw [shape, shapeAll_eq]

@[simp] theorem fullText_token (l : Label) (t : Token) :
    (token l t).fullText = t.trivia ++ t.text := by
  rw [fullText, Token.fullText]

@[simp] theorem fullText_node (l : Label) (cs : List Element) :
    (node l cs).fullText = fullTextAll cs := by
  rw [fullText]

/-- The first token of an element is a token. -/
theorem isToken_of_firstToken? {e x : Element} (h : e.firstToken? = some x) :
    x.isToken = true := by
  induction e using Element.induction with
  | token l t =>
    rw [firstToken?_token] at h
    obtain rfl := Option.some.inj h
    rfl
  | node l cs ih =>
    rw [firstToken?_node] at h
    obtain ⟨c, hc, hx⟩ := List.exists_of_findSome?_eq_some h
    exact ih c hc hx

/-! ### The first token -/

/-- The content of the first token. -/
def leadingToken? (e : Element) : Option Token := e.firstToken?.bind token?

theorem leadingTrivia_eq (e : Element) :
    e.leadingTrivia = (e.leadingToken?.map (·.trivia)).getD "" := rfl

@[simp] theorem leadingToken?_token (l : Label) (t : Token) :
    (token l t).leadingToken? = some t := by
  rw [leadingToken?, firstToken?_token]
  rfl

theorem bind_firstTokenOf? (cs : List Element) :
    (firstTokenOf? cs).bind token? = cs.findSome? leadingToken? := by
  induction cs with
  | nil => rfl
  | cons c cs ih =>
    rw [firstTokenOf?, List.findSome?_cons, leadingToken?, ← ih]
    rcases h : c.firstToken? with - | x
    · rfl
    · have hx := isToken_of_firstToken? h
      cases x with
      | token l t => rfl
      | node l ds => simp at hx

@[simp] theorem leadingToken?_node (l : Label) (cs : List Element) :
    (node l cs).leadingToken? = cs.findSome? leadingToken? := by
  rw [leadingToken?, firstToken?, bind_firstTokenOf?]

/-! ### Lying below -/

/-- `x` is `e`, or lies in one of its children. -/
inductive Below : Element → Element → Prop
  | refl (e : Element) : Below e e
  | child {e c x : Element} : c ∈ e.children → Below c x → Below e x

namespace Below

theorem trans {e x y : Element} (h : Below e x) (h' : Below x y) : Below e y := by
  induction h with
  | refl => exact h'
  | child hc _ ih => exact .child hc (ih h')

theorem of_child {e c : Element} (h : c ∈ e.children) : Below e c := .child h (.refl c)

/-- What lies in an element, and is not the element itself, is a child of something in it. -/
theorem exists_parent {e x : Element} (h : Below e x) (hne : x ≠ e) :
    ∃ p, Below e p ∧ x ∈ p.children := by
  induction h with
  | refl => exact absurd rfl hne
  | @child e c x hc _ ih =>
    by_cases hx : x = c
    · exact ⟨e, .refl e, hx ▸ hc⟩
    · obtain ⟨p, hp, hmem⟩ := ih hx
      exact ⟨p, .child hc hp, hmem⟩

/-- Nothing but a token itself lies in it. -/
theorem eq_of_isToken {e x : Element} (h : Below e x) (he : e.isToken = true) : x = e := by
  cases h with
  | refl => rfl
  | child hc _ =>
    cases e with
    | token l t => simp at hc
    | node l cs => simp at he

end Below

theorem mem_preorder_iff {e x : Element} : x ∈ e.preorder ↔ Below e x := by
  constructor
  · intro h
    induction e using Element.induction with
    | token l t =>
      obtain rfl := List.mem_singleton.mp (preorder_token l t ▸ h)
      exact .refl _
    | node l cs ih =>
      rw [preorder_node] at h
      rcases List.mem_cons.mp h with rfl | h
      · exact .refl _
      · obtain ⟨c, hc, hx⟩ := List.mem_flatMap.mp h
        exact .child hc (ih c hc hx)
  · intro h
    induction h with
    | refl e => cases e <;> simp
    | @child e c x hc _ ih =>
      cases e with
      | token l t => simp at hc
      | node l cs =>
        rw [preorder_node]
        exact List.mem_cons_of_mem _ (List.mem_flatMap.mpr ⟨c, hc, ih⟩)

/-! ### Shapes -/

theorem fullTextAll_map_shape {cs : List Element} (h : ∀ c ∈ cs, c.shape.fullText = c.fullText) :
    Shape.fullTextAll (cs.map shape) = fullTextAll cs := by
  induction cs with
  | nil => rfl
  | cons c cs ih =>
    rw [List.map_cons, Shape.fullTextAll, fullTextAll, h c List.mem_cons_self,
      ih fun d hd => h d (List.mem_cons_of_mem c hd)]

/-- The rendered text depends on the shape only. -/
theorem fullText_shape (e : Element) : e.shape.fullText = e.fullText := by
  induction e using Element.induction with
  | token l t => simp
  | node l cs ih => rw [shape_node, Shape.fullText_node, fullText_node, fullTextAll_map_shape ih]

theorem findSome?_leadingToken?_map_shape {cs : List Element}
    (h : ∀ c ∈ cs, c.shape.leadingToken? = c.leadingToken?) :
    (cs.map shape).findSome? Shape.leadingToken? = cs.findSome? leadingToken? := by
  induction cs with
  | nil => rfl
  | cons c cs ih =>
    rw [List.map_cons, List.findSome?_cons, List.findSome?_cons, h c List.mem_cons_self,
      ih fun d hd => h d (List.mem_cons_of_mem c hd)]

/-- The first token depends on the shape only. -/
theorem leadingToken?_shape (e : Element) : e.shape.leadingToken? = e.leadingToken? := by
  induction e using Element.induction with
  | token l t => simp
  | node l cs ih =>
    rw [shape_node, Shape.leadingToken?_node, leadingToken?_node,
      findSome?_leadingToken?_map_shape ih]

theorem leadingTrivia_shape (e : Element) : e.shape.leadingTrivia = e.leadingTrivia := by
  rw [Shape.leadingTrivia, leadingToken?_shape, leadingTrivia_eq]

end Element

end TreeLint
