/-
TreeLint/Proofs/Tree/Copies.lean

What an edit copies.

An edit that exchanges some neighbouring children of one node for others copies
all the rest.  The copies go with their originals in document order
(`Element.copies`): of the elements outside the old part and of those outside
the new part, the first ones go together, then the second ones, and so on.

That the walks go together follows from how it goes on below a pair.  A
relation *tracks* the two parts if below every pair the children outside the
parts are paired again, in order (`Tracks`).  Then the walks are paired as a
whole (`Tracks.forall₂_outside`), and every pair of such children is one of the
copies (`Tracks.forall₂_children`).  The relation at hand says that the two
elements lie around the place of the edit, or have the same shape apart from it
(`Kept`).
-/
import TreeLint.Proofs.Tree.Tracing
import Mathlib.Data.List.Forall2

namespace TreeLint

namespace Element

variable {e f a b c d o x x' z : Element} {old new parts pre post pre' post' : List Element}

/-! ### Outside some parts -/

/-- Whether an element lies in none of the parts. -/
def isOutside (parts : List Element) (x : Element) : Bool :=
  !(parts.flatMap preorder).any (·.id == x.id)

/-- The elements outside the parts, in document order. -/
def outside (parts : List Element) (e : Element) : List Element :=
  e.preorder.filter (isOutside parts)

theorem isOutside_iff :
    isOutside parts x = true ↔ ∀ o ∈ parts, ∀ z, Below o z → z.id ≠ x.id := by
  rw [isOutside, Bool.not_eq_true', List.any_eq_false]
  constructor
  · intro h o ho z hz hid
    exact h z (List.mem_flatMap.mpr ⟨o, ho, mem_preorder_iff.mpr hz⟩) (beq_iff_eq.mpr hid)
  · intro h z hz hid
    obtain ⟨o, ho, hz⟩ := List.mem_flatMap.mp hz
    exact h o ho z (mem_preorder_iff.mp hz) (beq_iff_eq.mp hid)

theorem not_isOutside_of_mem (ho : o ∈ parts) (hz : Below o z) : ¬ isOutside parts z = true := by
  rw [isOutside_iff]
  intro h
  exact h o ho z hz rfl

@[simp] theorem isOutside_nil (x : Element) : isOutside [] x = true := rfl

theorem outside_nil (e : Element) : e.outside [] = e.preorder :=
  List.filter_eq_self.mpr fun _ _ => rfl

/-- A part has nothing outside. -/
theorem outside_of_mem (ho : o ∈ parts) : o.outside parts = [] :=
  List.filter_eq_nil_iff.mpr fun _ hz => not_isOutside_of_mem ho (mem_preorder_iff.mp hz)

/-- What is outside, read off the children. -/
theorem outside_eq (h : isOutside parts e = true)
    (hcs : ∀ c ∈ e.children, isOutside parts c = true ∨ c ∈ parts) :
    e.outside parts = e :: (e.children.filter (isOutside parts)).flatMap (outside parts) := by
  rw [flatMap_filter fun c hc => (hcs c hc).imp_right outside_of_mem]
  cases e with
  | token l t => rw [outside, preorder_token, List.filter_cons_of_pos h]; rfl
  | node l cs => rw [outside, preorder_node, List.filter_cons_of_pos h, List.filter_flatMap]; rfl

namespace Distinct

/-- What the parts lie in is outside. -/
theorem isOutside_of_below (he : e.Distinct) (hx : Below e x)
    (hparts : ∀ o ∈ parts, o ∈ x.children) : isOutside parts e = true := by
  rw [isOutside_iff]
  intro o ho z hz
  cases hx with
  | refl => exact he.id_ne_of_child (hparts o ho) hz
  | child hc hx => exact he.id_ne_of_child hc (hx.trans (.child (hparts o ho) hz))

/-- What lies beside the way down to the parts is outside. -/
theorem isOutside_of_sibling (he : e.Distinct) (hcs : e.children = pre ++ c :: post)
    (hx : Below c x) (hparts : ∀ o ∈ parts, o ∈ x.children) (hd : d ∈ pre ∨ d ∈ post)
    (hz : Below d z) : isOutside parts z = true := by
  rw [isOutside_iff]
  intro o ho w hw
  exact (he.id_ne_of_sibling hcs hd hz (hx.trans (.child (hparts o ho) hw))).symm

/-- What lies beside the parts is outside. -/
theorem isOutside_of_beside (he : e.Distinct) (hcs : e.children = pre ++ (parts ++ post))
    (hd : d ∈ pre ∨ d ∈ post) (hz : Below d z) : isOutside parts z = true := by
  rw [isOutside_iff]
  intro o ho w hw
  obtain ⟨before, after, rfl⟩ := List.append_of_mem ho
  have hcs' : e.children = (pre ++ before) ++ o :: (after ++ post) := by
    rw [hcs]
    simp only [List.append_assoc, List.cons_append]
  have hd' : d ∈ pre ++ before ∨ d ∈ after ++ post :=
    hd.imp (List.mem_append_left _) (List.mem_append_right _)
  exact (he.id_ne_of_sibling hcs' hd' hz hw).symm

theorem filter_isOutside (he : e.Distinct) (hcs : e.children = pre ++ (parts ++ post)) :
    e.children.filter (isOutside parts) = pre ++ post := by
  have hpre : pre.filter (isOutside parts) = pre := List.filter_eq_self.mpr fun c hc =>
    he.isOutside_of_beside hcs (.inl hc) (.refl c)
  have hpost : post.filter (isOutside parts) = post := List.filter_eq_self.mpr fun c hc =>
    he.isOutside_of_beside hcs (.inr hc) (.refl c)
  have hparts : parts.filter (isOutside parts) = [] := List.filter_eq_nil_iff.mpr fun o ho =>
    not_isOutside_of_mem ho (.refl o)
  rw [hcs, List.filter_append, List.filter_append, hpre, hparts, hpost, List.nil_append]

theorem not_below_of_child (he : e.Distinct) (hc : c ∈ e.children) : ¬ Below c e :=
  fun h => he.id_ne_of_child hc h rfl

theorem not_below_of_sibling (he : e.Distinct) (hcs : e.children = pre ++ c :: post)
    (hx : Below c x) (hd : d ∈ pre ∨ d ∈ post) : ¬ Below d x :=
  fun h => he.id_ne_of_sibling hcs hd h hx rfl

end Distinct

/-! ### Lists that go together -/

section Lists

variable {α β γ δ : Type} {R : α → β → Prop} {xs : List α} {ys : List β}

theorem rel_head? (h : List.Forall₂ R xs ys) : Option.Rel R xs.head? ys.head? := by
  cases h with
  | nil => exact .none
  | cons hxy _ => exact .some hxy

theorem forall₂_filter {p : α → Bool} {q : β → Bool} (h : List.Forall₂ R xs ys)
    (hpq : ∀ x y, R x y → q y = p x) : List.Forall₂ R (xs.filter p) (ys.filter q) := by
  refine List.rel_filter ?_ h
  intro x y hxy
  show p x = true ↔ q y = true
  rw [hpq x y hxy]

/-- What is looked for goes together if all the elements do. -/
theorem rel_find? {p : α → Bool} {q : β → Bool} (h : List.Forall₂ R xs ys)
    (hpq : ∀ x y, R x y → q y = p x) :
    Option.Rel (fun x y => R x y ∧ p x = true) (xs.find? p) (ys.find? q) := by
  induction h with
  | nil => exact .none
  | @cons x y _ _ hxy _ ih =>
    rw [List.find?_cons, List.find?_cons, hpq x y hxy]
    rcases hx : p x with - | -
    · exact ih
    · exact .some ⟨hxy, hx⟩

theorem rel_imp {R' : α → β → Prop} {x? : Option α} {y? : Option β} (h : Option.Rel R x? y?)
    (hR : ∀ x y, R x y → R' x y) : Option.Rel R' x? y? := by
  cases h with
  | none => exact .none
  | some hxy => exact .some (hR _ _ hxy)

theorem rel_bind {S : γ → δ → Prop} {g : α → Option γ} {h : β → Option δ} {x? : Option α}
    {y? : Option β} (hxy : Option.Rel R x? y?) (hgh : ∀ x y, R x y → Option.Rel S (g x) (h y)) :
    Option.Rel S (x?.bind g) (y?.bind h) := by
  cases hxy with
  | none => exact .none
  | some hxy => exact hgh _ _ hxy

theorem bind_eq_of_rel {g : α → Option γ} {h : β → Option γ} {x? : Option α} {y? : Option β}
    (hxy : Option.Rel R x? y?) (hgh : ∀ x, x? = some x → ∀ y, R x y → h y = g x) :
    y?.bind h = x?.bind g := by
  cases hxy with
  | none => rfl
  | some hxy => exact hgh _ rfl _ hxy

theorem forall_of_forall₂ {P : α → Prop} (h : List.Forall₂ R xs ys)
    (hP : ∀ x y, R x y → P x) : ∀ x ∈ xs, P x := by
  induction h with
  | nil => exact List.forall_mem_nil _
  | cons hxy _ ih => exact List.forall_mem_cons.mpr ⟨hP _ _ hxy, ih⟩

theorem exists_of_mem_of_forall₂ (h : List.Forall₂ R xs ys) {x : α} (hx : x ∈ xs) :
    ∃ y ∈ ys, R x y := by
  induction h with
  | nil => cases hx
  | cons hxy _ ih =>
    rcases List.mem_cons.mp hx with rfl | hx
    · exact ⟨_, List.mem_cons_self, hxy⟩
    · obtain ⟨y, hy, hxy⟩ := ih hx
      exact ⟨y, List.mem_cons_of_mem _ hy, hxy⟩

theorem forall₂_of_mapM_eq_some {g : α → Option β} (h : xs.mapM g = some ys) :
    List.Forall₂ (fun x y => g x = some y) xs ys := by
  induction xs generalizing ys with
  | nil =>
    obtain rfl : [] = ys := Option.some.inj h
    exact .nil
  | cons x xs ih =>
    simp only [List.mapM_cons, Option.bind_eq_bind, Option.bind_eq_some_iff] at h
    obtain ⟨y, hy, rest, hrest, hys⟩ := h
    obtain rfl : y :: rest = ys := Option.some.inj hys
    exact .cons hy (ih hrest)

/-- What is gathered from a list all of whose elements have something to give. -/
theorem mem_iff_of_mapM_eq_some {g : α → Option β} (h : xs.mapM g = some ys) {y : β} :
    y ∈ ys ↔ ∃ x ∈ xs, g x = some y := by
  have hgo := forall₂_of_mapM_eq_some h
  constructor
  · exact fun hy => exists_of_mem_of_forall₂ hgo.flip hy
  · rintro ⟨x, hx, hxy⟩
    obtain ⟨y', hy', hxy'⟩ := exists_of_mem_of_forall₂ hgo hx
    obtain rfl := Option.some.inj (hxy.symm.trans hxy')
    exact hy'

theorem exists_mapM_eq_some_iff {g : α → Option β} :
    (∃ ys, xs.mapM g = some ys) ↔ ∀ x ∈ xs, ∃ y, g x = some y := by
  constructor
  · rintro ⟨ys, h⟩ x hx
    obtain ⟨y, -, hxy⟩ := exists_of_mem_of_forall₂ (forall₂_of_mapM_eq_some h) hx
    exact ⟨y, hxy⟩
  · intro h
    induction xs with
    | nil => exact ⟨[], rfl⟩
    | cons x xs ih =>
      obtain ⟨y, hy⟩ := h x List.mem_cons_self
      obtain ⟨ys, hys⟩ := ih fun x hx => h x (List.mem_cons_of_mem _ hx)
      exact ⟨y :: ys, by rw [List.mapM_cons, hy, hys]; rfl⟩

theorem mapM_eq_of_forall₂ {g : α → Option γ} {h : β → Option γ} (hxy : List.Forall₂ R xs ys)
    (hgh : ∀ x ∈ xs, ∀ y, R x y → h y = g x) : ys.mapM h = xs.mapM g := by
  induction hxy with
  | nil => rfl
  | cons hxy _ ih =>
    rw [List.mapM_cons, List.mapM_cons, hgh _ List.mem_cons_self _ hxy,
      ih fun x hx => hgh x (List.mem_cons_of_mem _ hx)]

theorem forall₂_flatMap {S : γ → δ → Prop} {g : α → List γ} {h : β → List δ}
    (hxy : List.Forall₂ R xs ys) (hgh : ∀ x ∈ xs, ∀ y, R x y → List.Forall₂ S (g x) (h y)) :
    List.Forall₂ S (xs.flatMap g) (ys.flatMap h) := by
  induction hxy with
  | nil => exact .nil
  | cons hxy _ ih =>
    rw [List.flatMap_cons, List.flatMap_cons]
    exact List.rel_append (hgh _ List.mem_cons_self _ hxy)
      (ih fun x hx => hgh x (List.mem_cons_of_mem _ hx))

theorem zip_flatMap {g : α → List γ} {h : β → List δ} (hxy : List.Forall₂ R xs ys)
    (hlength : ∀ x y, R x y → (g x).length = (h y).length) :
    (xs.flatMap g).zip (ys.flatMap h) = (xs.zip ys).flatMap fun p => (g p.1).zip (h p.2) := by
  induction hxy with
  | nil => rfl
  | cons hxy _ ih =>
    rw [List.flatMap_cons, List.flatMap_cons, List.zip_append (hlength _ _ hxy), ih,
      List.zip_cons_cons, List.flatMap_cons]

/-- Lists with the same image go together, element by element. -/
theorem forall₂_of_map_eq {f : α → γ} {g : β → γ} (h : ys.map g = xs.map f)
    (hR : ∀ x ∈ xs, ∀ y ∈ ys, g y = f x → R x y) : List.Forall₂ R xs ys := by
  induction xs generalizing ys with
  | nil =>
    rw [List.map_nil, List.map_eq_nil_iff] at h
    rw [h]
    exact .nil
  | cons x xs ih =>
    obtain ⟨y, ys, rfl, hy, hys⟩ := List.map_eq_cons_iff.mp h
    exact .cons (hR x List.mem_cons_self y List.mem_cons_self hy)
      (ih hys fun x' hx' y' hy' =>
        hR x' (List.mem_cons_of_mem x hx') y' (List.mem_cons_of_mem y hy'))

end Lists

/-! ### Copies -/

/-- The elements of `e` outside `old`, each with what stands for it in `f`: the elements of `f`
outside `new`, taken in document order. -/
def copies (old new : List Element) (e f : Element) : List (Element × Element) :=
  (e.outside old).zip (f.outside new)

/-- The relation holds between elements outside the two parts, and below every pair the children
outside the parts are paired again. -/
structure Tracks (old new : List Element) (R : Element → Element → Prop) : Prop where
  left : ∀ {a b}, R a b →
    isOutside old a = true ∧ ∀ c ∈ a.children, isOutside old c = true ∨ c ∈ old
  right : ∀ {a b}, R a b →
    isOutside new b = true ∧ ∀ d ∈ b.children, isOutside new d = true ∨ d ∈ new
  children : ∀ {a b}, R a b →
    List.Forall₂ R (a.children.filter (isOutside old)) (b.children.filter (isOutside new))

namespace Tracks

variable {R : Element → Element → Prop} (hR : Tracks old new R)
include hR

/-- What is outside goes together, in document order. -/
theorem forall₂_outside (h : R e f) : List.Forall₂ R (e.outside old) (f.outside new) := by
  induction e using Element.induction generalizing f with
  | token l t =>
    have hcs := hR.children h
    rw [outside_eq (hR.left h).1 (hR.left h).2, outside_eq (hR.right h).1 (hR.right h).2]
    exact .cons h (forall₂_flatMap hcs fun c hc =>
      absurd (List.mem_filter.mp hc).1 List.not_mem_nil)
  | node l cs ih =>
    have hcs := hR.children h
    rw [outside_eq (hR.left h).1 (hR.left h).2, outside_eq (hR.right h).1 (hR.right h).2]
    exact .cons h (forall₂_flatMap hcs fun c hc y hy => ih c (List.mem_filter.mp hc).1 hy)

theorem copies_eq (h : R e f) :
    copies old new e f = (e, f) ::
      ((e.children.filter (isOutside old)).zip (f.children.filter (isOutside new))).flatMap
        fun p => copies old new p.1 p.2 := by
  rw [copies, outside_eq (hR.left h).1 (hR.left h).2, outside_eq (hR.right h).1 (hR.right h).2,
    List.zip_cons_cons,
    zip_flatMap (hR.children h) fun _ _ hcd => (hR.forall₂_outside hcd).length_eq]
  rfl

theorem of_mem_copies (h : R e f) (hab : (a, b) ∈ copies old new e f) : R a b :=
  List.forall₂_zip (hR.forall₂_outside h) hab

theorem forall₂_copies (h : R e f) :
    List.Forall₂ (fun a b => (a, b) ∈ copies old new e f) (e.outside old) (f.outside new) :=
  List.forall₂_iff_zip.mpr ⟨(hR.forall₂_outside h).length_eq, fun hab => hab⟩

/-- Children that go with each other below a copy are copies. -/
theorem mem_copies_of_child (h : R e f) (hab : (a, b) ∈ copies old new e f)
    (hcd : (c, d) ∈ (a.children.filter (isOutside old)).zip (b.children.filter (isOutside new))) :
    (c, d) ∈ copies old new e f := by
  induction e using Element.induction generalizing f with
  | token l t =>
    rw [hR.copies_eq h] at hab
    obtain ⟨rfl, rfl⟩ := Prod.mk.inj (List.mem_singleton.mp hab)
    cases hcd
  | node l cs ih =>
    have hmem : ∀ {p : Element × Element},
        p ∈ ((node l cs).children.filter (isOutside old)).zip (f.children.filter (isOutside new)) →
        p.1 ∈ cs ∧ R p.1 p.2 := fun hp =>
      ⟨(List.mem_filter.mp (List.of_mem_zip hp).1).1, List.forall₂_zip (hR.children h) hp⟩
    rw [hR.copies_eq h] at hab ⊢
    apply List.mem_cons_of_mem
    rcases List.mem_cons.mp hab with hab | hab
    · -- a child of the top pair comes first among its own copies
      obtain ⟨rfl, rfl⟩ := Prod.mk.inj hab
      refine List.mem_flatMap.mpr ⟨(c, d), hcd, ?_⟩
      rw [hR.copies_eq (hmem hcd).2]
      exact List.mem_cons_self
    · obtain ⟨p, hp, hab⟩ := List.mem_flatMap.mp hab
      exact List.mem_flatMap.mpr ⟨p, hp, ih p.1 (hmem hp).1 (hmem hp).2 hab⟩

theorem forall₂_children (h : R e f) (hab : (a, b) ∈ copies old new e f) :
    List.Forall₂ (fun c d => (c, d) ∈ copies old new e f) (a.children.filter (isOutside old))
      (b.children.filter (isOutside new)) :=
  List.forall₂_iff_zip.mpr ⟨(hR.children (hR.of_mem_copies h hab)).length_eq,
    fun hcd => hR.mem_copies_of_child h hab hcd⟩

end Tracks

/-! ### Around the place of an edit -/

/-- The second element is the first one with `x'` in the place of `x`. -/
inductive Around (x x' : Element) : Element → Element → Prop
  | here : Around x x' x x'
  | child {e f c d : Element} {pre post pre' post' : List Element} (hkind : f.kind = e.kind)
      (he : e.children = pre ++ c :: post) (hf : f.children = pre' ++ d :: post')
      (hpre : pre'.map shape = pre.map shape) (hpost : post'.map shape = post.map shape)
      (h : Around x x' c d) : Around x x' e f

/-- Among the children of a node, `old` has given way to `new`. -/
structure Spliced (old new : List Element) (x x' : Element) : Prop where
  isToken_eq : x.isToken = false ∧ x'.isToken = false
  kind_eq : x'.kind = x.kind
  exists_split : ∃ pre post pre' post', x.children = pre ++ (old ++ post) ∧
    x'.children = pre' ++ (new ++ post') ∧ pre'.map shape = pre.map shape ∧
    post'.map shape = post.map shape

/-- The two elements lie around the place of an edit, or they have the same shape and nothing of the
edit is in them. -/
inductive Kept (old new : List Element) (x x' a b : Element) : Prop
  | around (ha : a.Distinct) (hb : b.Distinct) (h : Around x x' a b)
  | same (hshape : b.shape = a.shape) (hx : ¬ Below a x)
      (ha : ∀ z, Below a z → isOutside old z = true) (hb : ∀ z, Below b z → isOutside new z = true)

namespace Around

theorem below_left (h : Around x x' e f) : Below e x := by
  induction h with
  | here => exact .refl x
  | child _ he _ _ _ _ ih => exact .child (he ▸ List.mem_append_right _ List.mem_cons_self) ih

theorem below_right (h : Around x x' e f) : Below f x' := by
  induction h with
  | here => exact .refl x'
  | child _ _ hf _ _ _ ih => exact .child (hf ▸ List.mem_append_right _ List.mem_cons_self) ih

end Around

namespace Spliced

variable (h : Spliced old new x x')
include h

theorem mem_children_left (ho : o ∈ old) : o ∈ x.children := by
  obtain ⟨_, _, _, _, hx, -⟩ := h.exists_split
  exact hx ▸ List.mem_append_right _ (List.mem_append_left _ ho)

theorem mem_children_right (ho : o ∈ new) : o ∈ x'.children := by
  obtain ⟨_, _, _, _, -, hx', -⟩ := h.exists_split
  exact hx' ▸ List.mem_append_right _ (List.mem_append_left _ ho)

end Spliced

namespace Kept

variable (h : Spliced old new x x')
include h

/-- Below a pair that lies properly around the place of the edit, all children are paired. -/
theorem forall₂_children_of_child (he : e.Distinct) (hf : f.Distinct)
    (hes : e.children = pre ++ c :: post) (hfs : f.children = pre' ++ d :: post')
    (hpre : pre'.map shape = pre.map shape) (hpost : post'.map shape = post.map shape)
    (hcd : Around x x' c d) : List.Forall₂ (Kept old new x x') e.children f.children := by
  have hc : c ∈ e.children := hes ▸ List.mem_append_right _ List.mem_cons_self
  have hd : d ∈ f.children := hfs ▸ List.mem_append_right _ List.mem_cons_self
  have hsame : ∀ a b, (a ∈ pre ∨ a ∈ post) → (b ∈ pre' ∨ b ∈ post') → b.shape = a.shape →
      Kept old new x x' a b := by
    intro a b ha hb hshape
    refine .same hshape (he.not_below_of_sibling hes hcd.below_left ha) ?_ ?_
    · exact fun z hz => he.isOutside_of_sibling hes hcd.below_left (fun _ => h.mem_children_left)
        ha hz
    · exact fun z hz => hf.isOutside_of_sibling hfs hcd.below_right (fun _ => h.mem_children_right)
        hb hz
  rw [hes, hfs]
  refine List.rel_append ?_ (.cons (.around (he.child hc) (hf.child hd) hcd) ?_)
  · exact forall₂_of_map_eq hpre fun a ha b hb => hsame a b (.inl ha) (.inl hb)
  · exact forall₂_of_map_eq hpost fun a ha b hb => hsame a b (.inr ha) (.inr hb)

/-- Below a pair, all children are paired, except below the place of the edit. -/
theorem forall₂_children_of_ne (hab : Kept old new x x' a b) (ha : a ≠ x) :
    List.Forall₂ (Kept old new x x') a.children b.children := by
  cases hab with
  | around hda hdb hab =>
    cases hab with
    | here => exact absurd rfl ha
    | child _ he hf hpre hpost hcd =>
      exact forall₂_children_of_child h hda hdb he hf hpre hpost hcd
  | same hshape hx ha hb =>
    refine forall₂_of_map_eq (of_shape_eq hshape).2.2 ?_
    intro c hc d hd hcd
    exact .same hcd (fun hcx => hx (.child hc hcx)) (fun z hz => ha z (.child hc hz))
      (fun z hz => hb z (.child hd hz))

/-- Below the place of the edit, the children beside the two parts are paired. -/
theorem exists_forall₂_children (hx : x.Distinct) (hx' : x'.Distinct) :
    ∃ pre post pre' post', x.children = pre ++ (old ++ post) ∧
      x'.children = pre' ++ (new ++ post') ∧ List.Forall₂ (Kept old new x x') pre pre' ∧
      List.Forall₂ (Kept old new x x') post post' := by
  obtain ⟨pre, post, pre', post', hxs, hxs', hpre, hpost⟩ := h.exists_split
  have hsame : ∀ a b, (a ∈ pre ∨ a ∈ post) → (b ∈ pre' ∨ b ∈ post') → b.shape = a.shape →
      Kept old new x x' a b := by
    intro a b ha hb hshape
    have hmem : a ∈ x.children := by
      rw [hxs]
      exact ha.elim (List.mem_append_left _)
        fun ha => List.mem_append_right _ (List.mem_append_right _ ha)
    exact .same hshape (hx.not_below_of_child hmem)
      (fun z hz => hx.isOutside_of_beside hxs ha hz)
      (fun z hz => hx'.isOutside_of_beside hxs' hb hz)
  refine ⟨pre, post, pre', post', hxs, hxs', ?_, ?_⟩
  · exact forall₂_of_map_eq hpre fun a ha b hb => hsame a b (.inl ha) (.inl hb)
  · exact forall₂_of_map_eq hpost fun a ha b hb => hsame a b (.inr ha) (.inr hb)

theorem isOutside_left (hab : Kept old new x x' a b) : isOutside old a = true := by
  cases hab with
  | around hda _ hab => exact hda.isOutside_of_below hab.below_left fun _ => h.mem_children_left
  | same _ _ ha _ => exact ha a (.refl a)

theorem isOutside_right (hab : Kept old new x x' a b) : isOutside new b = true := by
  cases hab with
  | around _ hdb hab => exact hdb.isOutside_of_below hab.below_right fun _ => h.mem_children_right
  | same _ _ _ hb => exact hb b (.refl b)

theorem isToken_eq_and_kind_eq (hab : Kept old new x x' a b) :
    b.isToken = a.isToken ∧ b.kind = a.kind := by
  cases hab with
  | around _ _ hab =>
    cases hab with
    | here => exact ⟨h.isToken_eq.2.trans h.isToken_eq.1.symm, h.kind_eq⟩
    | child hkind he hf _ _ _ =>
      have ha := isToken_of_mem_children (he ▸ List.mem_append_right _ List.mem_cons_self)
      have hb := isToken_of_mem_children (hf ▸ List.mem_append_right _ List.mem_cons_self)
      exact ⟨hb.trans ha.symm, hkind⟩
  | same hshape _ _ _ => exact ⟨(of_shape_eq hshape).1, (of_shape_eq hshape).2.1⟩

theorem isToken_eq (hab : Kept old new x x' a b) : b.isToken = a.isToken :=
  (hab.isToken_eq_and_kind_eq h).1

theorem kind_eq (hab : Kept old new x x' a b) : b.kind = a.kind :=
  (hab.isToken_eq_and_kind_eq h).2

/-- A token and what it goes with have the same text. -/
theorem tokenText_eq (hab : Kept old new x x' a b) : b.tokenText = a.tokenText := by
  have htoken := hab.isToken_eq h
  cases a with
  | node l cs =>
    rw [eq_node htoken]
    rfl
  | token l t =>
    cases hab with
    | around _ _ hab => exact absurd (hab.below_left.eq_of_isToken rfl ▸ h.isToken_eq.1) (by simp)
    | same hshape _ _ _ =>
      cases b with
      | node l' cs' => cases htoken
      | token l' t' =>
        rw [shape_token, shape_token, Shape.token.injEq] at hshape
        rw [tokenText, tokenText, token?_token, token?_token, hshape.2]

end Kept

/-- The place of the edit goes with nothing but what it has become. -/
theorem Kept.eq_right (hab : Kept old new x x' x b) : b = x' ∧ x.Distinct ∧ b.Distinct := by
  cases hab with
  | around ha hb hab =>
    cases hab with
    | here => exact ⟨rfl, ha, hb⟩
    | child _ he _ _ _ hcd =>
      have hc := he ▸ List.mem_append_right _ List.mem_cons_self
      exact absurd hcd.below_left (ha.not_below_of_child hc)
  | same _ hx _ _ => exact absurd (.refl x) hx

theorem Distinct.isOutside_or_mem (hx : x.Distinct) (hcs : x.children = pre ++ (parts ++ post))
    (hc : c ∈ x.children) : isOutside parts c = true ∨ c ∈ parts := by
  have hmem := hc
  rw [hcs] at hmem
  rcases List.mem_append.mp hmem with hmem | hmem
  · exact .inl (hx.isOutside_of_beside hcs (.inl hmem) (.refl c))
  · rcases List.mem_append.mp hmem with hmem | hmem
    · exact .inr hmem
    · exact .inl (hx.isOutside_of_beside hcs (.inr hmem) (.refl c))

/-- What has been kept tracks the edit. -/
theorem Spliced.tracks (h : Spliced old new x x') : Tracks old new (Kept old new x x') where
  left {a b} hab := by
    refine ⟨hab.isOutside_left h, fun c hc => ?_⟩
    by_cases ha : a = x
    · subst ha
      obtain ⟨_, _, _, _, hxs, -⟩ := h.exists_split
      exact hab.eq_right.2.1.isOutside_or_mem hxs hc
    · exact .inl (forall_of_forall₂ (hab.forall₂_children_of_ne h ha)
        (fun _ _ hcd => hcd.isOutside_left h) c hc)
  right {a b} hab := by
    refine ⟨hab.isOutside_right h, fun d hd => ?_⟩
    by_cases ha : a = x
    · subst ha
      obtain ⟨rfl, -, hb⟩ := hab.eq_right
      obtain ⟨_, _, _, _, -, hxs', -⟩ := h.exists_split
      exact hb.isOutside_or_mem hxs' hd
    · exact .inl (forall_of_forall₂ (hab.forall₂_children_of_ne h ha).flip
        (fun _ _ hcd => hcd.isOutside_right h) d hd)
  children {a b} hab := by
    by_cases ha : a = x
    · subst ha
      obtain ⟨rfl, hx, hb⟩ := hab.eq_right
      obtain ⟨_, _, _, _, hxs, hxs', hpre, hpost⟩ := Kept.exists_forall₂_children h hx hb
      rw [hx.filter_isOutside hxs, hb.filter_isOutside hxs']
      exact List.rel_append hpre hpost
    · have hcs := hab.forall₂_children_of_ne h ha
      rw [List.filter_eq_self.mpr (forall_of_forall₂ hcs fun _ _ hcd => hcd.isOutside_left h),
        List.filter_eq_self.mpr (forall_of_forall₂ hcs.flip fun _ _ hcd => hcd.isOutside_right h)]
      exact hcs

end Element

/-! ### Edits at one place -/

namespace Revision

open Element

/-- A revision that says nothing outside an element goes around that element. -/
theorem exists_around {r : Revision} {e f x : Element} (hx : Below e x)
    (hf : f.shape = r.revise e) (he : e.Distinct)
    (hsilent : ∀ z, Below e z → ¬ Below x z → r.Silent z.id) :
    ∃ x', x'.shape = r.revise x ∧ Around x x' e f := by
  induction hx generalizing f with
  | refl => exact ⟨f, hf, .here⟩
  | @child e c x hc hx ih =>
    have hetop : r.Silent e.id :=
      hsilent e (.refl e) fun h => he.not_below_of_child hc (hx.trans h)
    rw [revise_node_of_silent (isToken_of_mem_children hc) hetop] at hf
    obtain ⟨-, hkind, hfcs⟩ := of_shape_eq_node hf
    obtain ⟨pre, post, hcs⟩ := List.append_of_mem hc
    obtain ⟨pre', d, post', hds, hpre, hd, hpost⟩ := exists_split hfcs hcs
    -- the siblings lie outside the element, too
    have hquiet : ∀ zs : List Element, (∀ z ∈ zs, z ∈ pre ∨ z ∈ post) →
        zs.map r.revise = zs.map shape := by
      intro zs hzs
      apply map_revise_of_silent
      intro z hz w hw
      have hmem : z ∈ e.children := by
        rw [hcs]
        exact (hzs z hz).elim (List.mem_append_left _)
          fun h => List.mem_append_right _ (List.mem_cons_of_mem c h)
      refine hsilent w (.child hmem hw) fun hxw => ?_
      exact he.id_ne_of_sibling hcs (hzs z hz) hw (hx.trans hxw) rfl
    rw [hquiet pre fun _ => .inl] at hpre
    rw [hquiet post fun _ => .inr] at hpost
    obtain ⟨x', hx', hcd⟩ := ih hd (he.child hc) fun z hz => hsilent z (.child hc hz)
    exact ⟨x', hx', .child hkind hcs hds hpre hpost hcd⟩

end Revision

namespace Tree

open Element

variable {t : Tree} {x : Element} {pre post : List Element}

/-- The tree `t'` is `t` with the children `new` in the place of the children `old` of a node. -/
structure Splice (old new : List Element) (x x' : Element) (t t' : Tree) : Prop where
  around : Around x x' t.top t'.top
  spliced : Spliced old new x x'

namespace Splice

variable {old new : List Element} {x' a b : Element} {t' : Tree}

theorem kept_top (h : Splice old new x x' t t') : Kept old new x x' t.top t'.top :=
  .around t.distinct_top t'.distinct_top h.around

theorem kept_of_mem_copies (h : Splice old new x x' t t')
    (hab : (a, b) ∈ copies old new t.top t'.top) : Kept old new x x' a b :=
  h.spliced.tracks.of_mem_copies h.kept_top hab

theorem forall₂_copies (h : Splice old new x x' t t') :
    List.Forall₂ (fun a b => (a, b) ∈ copies old new t.top t'.top) (t.top.outside old)
      (t'.top.outside new) :=
  h.spliced.tracks.forall₂_copies h.kept_top

/-- Below a copy, the children outside the two parts are copies. -/
theorem forall₂_children (h : Splice old new x x' t t')
    (hab : (a, b) ∈ copies old new t.top t'.top) :
    List.Forall₂ (fun c d => (c, d) ∈ copies old new t.top t'.top)
      (a.children.filter (isOutside old)) (b.children.filter (isOutside new)) :=
  h.spliced.tracks.forall₂_children h.kept_top hab

/-- Below a copy, all children are copies, except at the place of the edit. -/
theorem forall₂_children_of_ne (h : Splice old new x x' t t')
    (hab : (a, b) ∈ copies old new t.top t'.top) (ha : a ≠ x) :
    List.Forall₂ (fun c d => (c, d) ∈ copies old new t.top t'.top) a.children b.children := by
  have hcs := h.forall₂_children hab
  have hkept := (h.kept_of_mem_copies hab).forall₂_children_of_ne h.spliced ha
  rwa [List.filter_eq_self.mpr
      (forall_of_forall₂ hkept fun _ _ hcd => hcd.isOutside_left h.spliced),
    List.filter_eq_self.mpr
      (forall_of_forall₂ hkept.flip fun _ _ hcd => hcd.isOutside_right h.spliced)] at hcs

theorem forall₂_childNodes_of_ne (h : Splice old new x x' t t')
    (hab : (a, b) ∈ copies old new t.top t'.top) (ha : a ≠ x) :
    List.Forall₂ (fun c d => (c, d) ∈ copies old new t.top t'.top) a.childNodes b.childNodes :=
  forall₂_filter (h.forall₂_children_of_ne hab ha) fun _ _ hcd =>
    congrArg not ((h.kept_of_mem_copies hcd).isToken_eq h.spliced)

/-- The place of the edit is copied, too. -/
theorem mem_copies (h : Splice old new x x' t t') : (x, x') ∈ copies old new t.top t'.top := by
  have hx : x ∈ t.top.outside old := List.mem_filter.mpr ⟨mem_preorder_iff.mpr h.around.below_left,
    (t.distinct_top.below h.around.below_left).isOutside_of_below (.refl x)
      fun _ => h.spliced.mem_children_left⟩
  obtain ⟨y, -, hxy⟩ := exists_of_mem_of_forall₂ h.forall₂_copies hx
  rwa [(h.kept_of_mem_copies hxy).eq_right.1] at hxy

theorem below_of_mem (h : Splice old new x x' t t') (hb : b ∈ new) : Below t'.top b :=
  h.around.below_right.trans (.of_child (h.spliced.mem_children_right hb))

/-- Everything outside the two parts keeps its kind, and its shape if the place of the edit is not
in it. -/
theorem forall₂_outside (h : Splice old new x x' t t') :
    List.Forall₂ (fun a b => b.kind = a.kind ∧ (¬ Below a x → b.shape = a.shape))
      (t.top.outside old) (t'.top.outside new) := by
  refine (h.spliced.tracks.forall₂_outside h.kept_top).imp fun a b hab => ?_
  refine ⟨hab.kind_eq h.spliced, fun hax => ?_⟩
  cases hab with
  | around _ _ hab => exact absurd hab.below_left hax
  | same hshape _ _ _ => exact hshape

/-- What the new part has none of is found outside it. -/
theorem filter_outside (h : Splice old new x x' t t') {p : Element → Bool}
    (hp : ∀ s ∈ new, ∀ z, Below s z → p z = false) :
    (t'.top.outside new).filter p = t'.top.preorder.filter p := by
  rw [outside, List.filter_filter]
  refine List.filter_congr fun z hz => ?_
  rcases hpz : p z with - | -
  · rfl
  · rw [Bool.true_and, isOutside_iff]
    intro s hs w hw hid
    obtain rfl := eq_of_id_eq ((h.below_of_mem hs).trans hw) (mem_preorder_iff.mp hz) hid
    rw [hp s hs w hw] at hpz
    cases hpz

end Splice

/-- Replacing a child of a node. -/
theorem exists_edit_replace_splice {c : Element} (hx : Below t.top x)
    (hcs : x.children = pre ++ c :: post) (replacement : Tree) :
    ∃ t' x' d, t.edit (({} : Edits).replace c.id replacement) = .ok t' ∧
      Splice [c] [d] x x' t t' ∧ d.shape = replacement.top.shape.withTrivia c.leadingTrivia := by
  have hc : c ∈ x.children := hcs ▸ List.mem_append_right _ List.mem_cons_self
  have hcbelow : Below t.top c := hx.trans (.of_child hc)
  have hxdistinct := t.distinct_top.below hx
  obtain ⟨t', ht', hshape⟩ := exists_edit_replace_eq hcbelow replacement
  have hother : ∀ id, id ≠ c.id →
      (({} : Revision).replace c.id replacement.top.shape).Silent id :=
    fun _ hid => Revision.agree_replace _ hid
  obtain ⟨x', hx', haround⟩ := Revision.exists_around hx hshape t.distinct_top fun z hz hxz =>
    hother z.id fun hid => hxz (eq_of_id_eq hz hcbelow hid ▸ .of_child hc)
  have hsiblings : ∀ zs : List Element, (∀ z ∈ zs, z ∈ pre ∨ z ∈ post) →
      zs.map (({} : Revision).replace c.id replacement.top.shape).revise = zs.map shape := by
    intro zs hzs
    refine Revision.map_revise_of_silent fun z hz w hw => hother w.id ?_
    exact hxdistinct.id_ne_of_sibling hcs (hzs z hz) hw (.refl c)
  have hnode := isToken_of_mem_children hc
  rw [Revision.revise_node_of_silent hnode
    (hother x.id (hxdistinct.id_ne_of_child hc (.refl c)).symm)] at hx'
  obtain ⟨hnode', hkind, hcs'⟩ := of_shape_eq_node hx'
  obtain ⟨pre', d, post', hds, hpre, hd, hpost⟩ := exists_split hcs' hcs
  rw [hsiblings pre fun _ => .inl] at hpre
  rw [hsiblings post fun _ => .inr] at hpost
  rw [Revision.revise_of_replacement? (Revision.replacement?_replace _ _ _)] at hd
  exact ⟨t', x', d, ht', ⟨haround, ⟨hnode, hnode'⟩, hkind, pre, post, pre', post', hcs, hds, hpre,
    hpost⟩, hd⟩

/-- Inserting among the children of a node. -/
theorem exists_edit_insert_splice (hx : Below t.top x) (hnode : x.isToken = false)
    (hcs : x.children = pre ++ post) (fragments : List Tree) :
    ∃ t' x' new, t.edit (fragments.foldl (fun edits f => edits.insert x.id pre.length f) {})
        = .ok t' ∧
      Splice [] new x x' t t' ∧ new = (x'.children.drop pre.length).take fragments.length ∧
      new.map shape = fragments.map (·.top.shape) := by
  obtain ⟨t', ht', hshape⟩ := exists_edit_insert_eq hx pre.length fragments
  have hother : ∀ id, id ≠ x.id →
      (({} : Revision).insert x.id pre.length (fragments.map (·.top.shape))).Silent id :=
    fun _ hid => Revision.agree_insert _ _ hid
  obtain ⟨x', hx', haround⟩ := Revision.exists_around hx hshape t.distinct_top fun z hz hxz =>
    hother z.id fun hid => hxz (eq_of_id_eq hz hx hid ▸ .refl x)
  have hsame : ∀ zs : List Element, (∀ z ∈ zs, z ∈ x.children) →
      zs.map (({} : Revision).insert x.id pre.length (fragments.map (·.top.shape))).revise
        = zs.map shape := by
    intro zs hzs
    refine Revision.map_revise_of_silent fun z hz w hw => hother w.id ?_
    exact (t.distinct_top.below hx).id_ne_of_child (hzs z hz) hw
  rw [Revision.revise_of_insertions_eq hnode rfl hcs (Revision.insertions_insert _ _ _ _),
    hsame pre fun z hz => hcs ▸ List.mem_append_left _ hz,
    hsame post fun z hz => hcs ▸ List.mem_append_right _ hz] at hx'
  obtain ⟨hnode', hkind, hcs'⟩ := of_shape_eq_node hx'
  obtain ⟨pre', rest, hds, hpre, hrest⟩ := List.map_eq_append_iff.mp hcs'
  obtain ⟨new, post', rfl, hnew, hpost⟩ := List.map_eq_append_iff.mp hrest
  have hprelength : pre.length = pre'.length := by
    simpa using congrArg List.length hpre.symm
  have hlength : fragments.length = new.length := by
    simpa using congrArg List.length hnew.symm
  refine ⟨t', x', new, ht', ⟨haround, ⟨hnode, hnode'⟩, hkind, pre, post, pre', post', hcs, hds,
    hpre, hpost⟩, ?_, hnew⟩
  rw [hds, hprelength, hlength, List.drop_left, List.take_left]

end Tree

end TreeLint
