/-
TreeLint/Proofs/Tree/Spans.lean

Spans describe the rendered text of a tree.

A span *delimits* a piece of a text when it lies in the text, on boundaries
of characters, and covers exactly the bytes of the piece; spans *tile* a
range when each starts where the one before stops.  For every slot that the
root of a tree reaches,

* its full span delimits its rendered text, and its span the text without
  the trivia of its first token;
* the full spans of its children tile its own.

The full spans of all tokens in document order tile the whole text.
-/
import TreeLint.Proofs.Tree.Table

namespace TreeLint

/-! ### Delimiting and tiling -/

namespace Span

/-- The span delimits `piece` in `text`: it lies in the text and on boundaries of characters, and
its bytes are those of the piece. -/
structure Delimits (s : Span) (text piece : String) : Prop where
  start_le_stop : s.start ≤ s.stop
  stop_le_size : s.stop ≤ text.utf8ByteSize
  start_isValid : String.Pos.Raw.IsValid text ⟨s.start⟩
  stop_isValid : String.Pos.Raw.IsValid text ⟨s.stop⟩
  bytes_eq : text.toByteArray.extract s.start s.stop = piece.toByteArray

theorem delimits_append (before piece after : String) :
    Delimits ⟨before.utf8ByteSize, before.utf8ByteSize + piece.utf8ByteSize⟩
      (before ++ piece ++ after) piece where
  start_le_stop := Nat.le_add_right _ _
  stop_le_size := by
    simp only [String.utf8ByteSize_append]
    exact Nat.le_add_right _ _
  start_isValid := by
    rw [String.Pos.Raw.isValid_iff_exists_append]
    exact ⟨before, piece ++ after, String.append_assoc, rfl⟩
  stop_isValid := by
    rw [String.Pos.Raw.isValid_iff_exists_append]
    refine ⟨before ++ piece, after, rfl, ?_⟩
    rw [String.Pos.Raw.ext_iff]
    exact String.utf8ByteSize_append.symm
  bytes_eq := by
    rw [String.append_assoc, String.toByteArray_append, String.toByteArray_append]
    have h := ByteArray.extract_append_size_add (a := before.toByteArray)
      (b := piece.toByteArray ++ after.toByteArray) (i := 0) (j := piece.toByteArray.size)
    rw [ByteArray.extract_append_eq_left rfl] at h
    exact h

/-- The spans follow each other without gap or overlap from `start` to `stop`. -/
def Tile (start : Nat) : List Span → (stop : Nat) → Prop
  | [], stop => start = stop
  | s :: ss, stop => s.start = start ∧ start ≤ s.stop ∧ Tile s.stop ss stop

theorem Tile.append {a b c : Nat} {ss ts : List Span} (h : Tile a ss b) (h' : Tile b ts c) :
    Tile a (ss ++ ts) c := by
  induction ss generalizing a with
  | nil =>
    obtain rfl : a = b := h
    exact h'
  | cons s ss ih => exact ⟨h.1, h.2.1, ih h.2.2⟩

end Span

/-! ### Placed elements -/

namespace Element

/-- Elements that are placed one after the other tile what they take up. -/
theorem tile_placeAll (o : Nat) (cs : List Element) :
    Span.Tile o ((placeAll o cs).map full) (o + widthAll cs) := by
  induction cs generalizing o with
  | nil => rfl
  | cons c cs ih =>
    rw [placeAll, List.map_cons, full_place, widthAll, ← Nat.add_assoc]
    exact ⟨rfl, Nat.le_add_right _ _, ih (o + c.width)⟩

/-- The children of a placed node tile it. -/
theorem Placed.tile_children {e : Element} (h : e.Placed) (he : e.isToken = false) :
    Span.Tile e.full.start (e.children.map full) e.full.stop := by
  have htile := tile_placeAll e.full.start e.children
  rw [← h.children_eq, widthAll_eq, ← fullText_eq_fullTextAll_children he, ← h.stop_eq] at htile
  exact htile

/-- The tokens of a placed element, in document order, tile it. -/
theorem Placed.tile_tokens {e : Element} (h : e.Placed) :
    Span.Tile e.full.start ((e.preorder.filter isToken).map full) e.full.stop := by
  induction e using Element.induction with
  | token l t =>
    rw [preorder_token, List.filter_cons_of_pos (by rfl), List.filter_nil]
    refine ⟨rfl, ?_, rfl⟩
    rw [h.stop_eq]
    exact Nat.le_add_right _ _
  | node l cs ih =>
    -- the children tile the node, and the tokens of each child tile that child
    have hcs : ∀ ds : List Element, (∀ d ∈ ds, d ∈ cs) → ∀ a b, Span.Tile a (ds.map full) b →
        Span.Tile a (((ds.flatMap preorder).filter isToken).map full) b := by
      intro ds hds a b htile
      induction ds generalizing a with
      | nil => exact htile
      | cons d ds ihds =>
        obtain ⟨hstart, -, hrest⟩ := htile
        rw [List.flatMap_cons, List.filter_append, List.map_append]
        have hd := ih d (hds d List.mem_cons_self) (h.child (hds d List.mem_cons_self))
        rw [hstart] at hd
        exact hd.append (ihds (fun x hx => hds x (List.mem_cons_of_mem d hx)) _ hrest)
    rw [preorder_node, List.filter_cons_of_neg (by simp)]
    exact hcs cs (fun d hd => hd) _ _ (h.tile_children rfl)

/-- The full span of what lies in an element delimits its text. -/
theorem Placed.full_delimits {e x : Element} (h : e.Placed) (he : e.full.start = 0)
    (hx : Below e x) : x.full.Delimits e.fullText x.fullText := by
  obtain ⟨before, after, htext, hstart⟩ := h.exists_fullText_eq hx
  rw [(h.below hx).full_eq, hstart, he, Nat.zero_add, htext]
  exact Span.delimits_append before x.fullText after

/-- The span proper of what lies in an element delimits its text without leading trivia. -/
theorem Placed.span_delimits {e x : Element} (h : e.Placed) (he : e.full.start = 0)
    (hx : Below e x) : x.span.Delimits e.fullText x.text := by
  obtain ⟨before, after, htext, hstart⟩ := h.exists_fullText_eq hx
  have hx' := h.below hx
  rw [x.fullText_eq_leadingTrivia_append_text, ← String.append_assoc] at htext
  have hd := Span.delimits_append (before ++ x.leadingTrivia) x.text after
  rw [← htext] at hd
  rw [hx'.span_eq, hx'.stop_eq, hstart, he, Nat.zero_add, x.fullText_eq_leadingTrivia_append_text,
    String.utf8ByteSize_append, ← Nat.add_assoc, ← String.utf8ByteSize_append]
  exact hd

end Element

/-! ### Trees -/

namespace Tree

open Element

/-- **Spans describe the text.**  Every reachable slot has an element that carries the slot's kind,
children and token; its two spans delimit its two texts in the text of the tree, and its children
tile it.  The tokens in document order tile the text of the tree. -/
theorem spans_describe_text (t : Tree) :
    (∀ id, t.Reachable id → ∃ e, t.element? id = some e ∧ t.slots[id]? = some e.slot ∧
      e.full.Delimits t.text e.fullText ∧ e.span.Delimits t.text e.text ∧
      (e.isToken = false → Span.Tile e.full.start (e.children.map full) e.full.stop)) ∧
    Span.Tile 0 ((t.top.preorder.filter isToken).map full) t.text.utf8ByteSize := by
  have htop := t.placed_top
  have hzero := t.full_start_top
  constructor
  · intro id hid
    obtain ⟨e, he, rfl⟩ := reachable_iff.mp hid
    exact ⟨e, element?_of_below_top he, slot_eq_of_below_top he, htop.full_delimits hzero he,
      htop.span_delimits hzero he, (htop.below he).tile_children⟩
  · have htile := htop.tile_tokens
    rw [htop.stop_eq, hzero, Nat.zero_add] at htile
    exact htile

end Tree

end TreeLint
