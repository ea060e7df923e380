/-
TreeLint/Proofs/Tree/Ends.lean

The first and the last token of an element.

The first token is the first one of the walk over the element, wherever nodes
without tokens stand (`Element.firstToken?_eq`).

The search for the last token goes down the last children only, and so it comes to
the last element of the walk (`Element.lastToken?_eq`).  If that is a node, nothing
is found, even though there may be tokens before it; so the search is right for the
elements that have no token, and for those whose walk ends in one
(`Element.lastToken?_eq_getLast?_iff`).
-/
import TreeLint.Proofs.Tree.Table

namespace TreeLint

namespace Element

/-! ### The first token -/

theorem findSome?_congr {α β : Type} {f g : α → Option β} {xs : List α}
    (h : ∀ x ∈ xs, f x = g x) : xs.findSome? f = xs.findSome? g := by
  induction xs with
  | nil => rfl
  | cons x xs ih =>
    rw [List.findSome?_cons, List.findSome?_cons, h x List.mem_cons_self,
      ih fun y hy => h y (List.mem_cons_of_mem x hy)]

/-- The first token is the first one of the walk. -/
theorem firstToken?_eq (e : Element) : e.firstToken? = (e.preorder.filter isToken).head? := by
  induction e using Element.induction with
  | token l t => rw [firstToken?_token, preorder_token]; rfl
  | node l cs ih =>
    rw [firstToken?_node, preorder_node, List.filter_cons_of_neg (by simp), List.filter_flatMap,
      List.head?_flatMap]
    exact findSome?_congr ih

/-! ### The last token -/

theorem lastTokenOf?_eq (cs : List Element) : lastTokenOf? cs = cs.getLast?.bind lastToken? := by
  induction cs with
  | nil => rfl
  | cons c cs ih =>
    cases cs with
    | nil => rfl
    | cons d cs => rw [lastTokenOf?, ih, List.getLast?_cons_cons]

@[simp] theorem lastToken?_token (l : Label) (t : Token) :
    (token l t).lastToken? = some (token l t) := by
  rw [lastToken?]

@[simp] theorem lastToken?_node (l : Label) (cs : List Element) :
    (node l cs).lastToken? = cs.getLast?.bind lastToken? := by
  rw [lastToken?, lastTokenOf?_eq]

theorem preorder_ne_nil (e : Element) : e.preorder ≠ [] := by
  cases e with
  | token l t => rw [preorder_token]; exact List.cons_ne_nil _ _
  | node l cs => rw [preorder_node]; exact List.cons_ne_nil _ _

/-- The search for the last token comes to the last element of the walk. -/
theorem lastToken?_eq (e : Element) : e.lastToken? = e.preorder.getLast?.filter isToken := by
  induction e using Element.induction with
  | token l t => rw [lastToken?_token, preorder_token]; rfl
  | node l cs ih =>
    rw [lastToken?_node, preorder_node]
    rcases List.eq_nil_or_concat cs with rfl | ⟨front, c, rfl⟩
    · rfl
    · rw [List.concat_eq_append] at ih ⊢
      have hwalk : node l (front ++ [c]) :: (front ++ [c]).flatMap preorder
          = (node l (front ++ [c]) :: front.flatMap preorder) ++ c.preorder := by
        simp
      rw [List.getLast?_concat, Option.bind_some, ih c (by simp), hwalk,
        List.getLast?_append_of_ne_nil _ c.preorder_ne_nil]

theorem lastToken?_eq_some_iff {e x : Element} :
    e.lastToken? = some x ↔ e.preorder.getLast? = some x ∧ x.isToken = true := by
  rw [lastToken?_eq, Option.filter_eq_some_iff]

/-- The search for the last token is right where there is none, and where the walk ends in one. -/
theorem lastToken?_eq_getLast?_iff (e : Element) :
    e.lastToken? = (e.preorder.filter isToken).getLast? ↔
      (∀ x ∈ e.preorder, x.isToken = false) ∨
        ∃ x, e.preorder.getLast? = some x ∧ x.isToken = true := by
  constructor
  · intro h
    obtain ⟨front, x, hwalk⟩ := (List.eq_nil_or_concat _).resolve_left e.preorder_ne_nil
    rw [List.concat_eq_append] at hwalk
    have hlast : e.preorder.getLast? = some x := by rw [hwalk, List.getLast?_concat]
    cases hx : x.isToken with
    | true => exact .inr ⟨x, hlast, hx⟩
    | false =>
      -- nothing is found, so there is nothing to find
      rw [lastToken?_eq, hlast, Option.filter_some_neg hx] at h
      have hnone := List.filter_eq_nil_iff.mp (List.getLast?_eq_none_iff.mp h.symm)
      exact .inl fun y hy => Bool.eq_false_iff.mpr (hnone y hy)
  · rintro (hnone | ⟨x, hlast, hx⟩)
    · have hfilter : e.preorder.filter isToken = [] :=
        List.filter_eq_nil_iff.mpr fun y hy => ne_true_of_eq_false (hnone y hy)
      rw [hfilter, lastToken?_eq, List.getLast?_nil, Option.filter_eq_none_iff]
      exact fun y hy => ne_true_of_eq_false (hnone y (List.mem_of_getLast? hy))
    · obtain ⟨front, hwalk⟩ := List.getLast?_eq_some_iff.mp hlast
      rw [lastToken?_eq_some_iff.mpr ⟨hlast, hx⟩, hwalk, List.filter_append,
        List.filter_cons_of_pos hx, List.filter_nil, List.getLast?_concat]

end Element

/-! ### Trees -/

namespace Tree

open Element

/-- **The ends of an element.**  The first token of a reachable element is the first one of its
walk, and none exactly if the walk has no token.  The last one is only found if it ends the walk, so
the answer is right exactly if it does, or if there is no token. -/
theorem ends_of_reachable (t : Tree) {id : NodeId} (h : t.Reachable id) :
    ∃ x, t.element? id = some x ∧
      x.firstToken? = (x.preorder.filter isToken).head? ∧
      (x.firstToken? = none ↔ ∀ y ∈ x.preorder, y.isToken = false) ∧
      (∀ y, x.lastToken? = some y ↔ x.preorder.getLast? = some y ∧ y.isToken = true) ∧
      (x.lastToken? = (x.preorder.filter isToken).getLast? ↔
        (∀ y ∈ x.preorder, y.isToken = false) ∨
          ∃ y, x.preorder.getLast? = some y ∧ y.isToken = true) := by
  obtain ⟨x, hx, rfl⟩ := reachable_iff.mp h
  refine ⟨x, element?_of_below_top hx, x.firstToken?_eq, ?_, fun y => lastToken?_eq_some_iff,
    x.lastToken?_eq_getLast?_iff⟩
  rw [firstToken?_eq, List.head?_eq_none_iff, List.filter_eq_nil_iff]
  exact forall₂_congr fun y _ => Bool.not_eq_true _ ▸ Iff.rfl

/-- A block in which a node without children comes after the brace. -/
def openBlock : Tree :=
  ⟨#[⟨.block, [1, 2], none⟩, ⟨.openBraceToken, [], some ⟨"\x7b", ""⟩⟩, ⟨.argumentList, [], none⟩],
    0, #[none, some 0, some 0], _, rfl, rfl⟩

theorem ends_of_reachable_openBlock :
    openBlock.Reachable 0 ∧ ∃ x, openBlock.element? 0 = some x ∧
      x.firstToken?.map Element.id = some 1 ∧ x.lastToken? = none := by
  have hroot : openBlock.Reachable 0 := .root
  obtain ⟨x, hx, hfirst, -, hlast, -⟩ := ends_of_reachable openBlock hroot
  obtain rfl : openBlock.top = x := Option.some.inj hx
  refine ⟨hroot, _, hx, by rw [hfirst]; rfl, ?_⟩
  rw [Option.eq_none_iff_forall_ne_some]
  intro y hy
  obtain ⟨hend, htoken⟩ := (hlast y).mp hy
  obtain rfl := Option.some.inj hend
  cases htoken

/-- In that block no last token is found, although there is a token. -/
theorem not_lastToken?_eq :
    ¬ ∀ (t : Tree) (id : NodeId) (x : Element), t.Reachable id → t.element? id = some x →
      x.lastToken? = (x.preorder.filter isToken).getLast? := by
  intro h
  have hlast := congrArg Option.isSome (h openBlock 0 openBlock.top .root rfl)
  cases hlast

end Tree

end TreeLint
