/-
TreeLint/Proofs/Tree/TextEdits.lean

What a revision does to the text.

A text edit exchanges the bytes of a span.  Edits of one text are carried out
*at once* by going through them in the order of the text, keeping what stands
between them (`TextEdit.applyAll`).  A revision that replaces elements and
inserts before children asks for such edits, at places known from the original
element alone (`Revision.textEdits`), and the text of the revised element is
the original text with all of them carried out at once
(`Tree.toByteArray_revise`).

Edits at the same place could not be told apart by their spans.  There are
none: a replaced element takes up bytes, and an insertion stands strictly
between two parts of the element that it is made in.
-/
import TreeLint.Proofs.Tree.Spans
import TreeLint.Proofs.Tree.Tracing

namespace TreeLint

/-! ### Edits of a text -/

/-- Puts `text` in the place of the bytes of `span`. -/
structure TextEdit where
  span : Span
  text : String
  deriving DecidableEq, Repr

namespace TextEdit

/-- Whether `a` stands no further back than `b`. -/
def isNoLater (a b : TextEdit) : Bool :=
  a.span.start < b.span.start
    || (a.span.start == b.span.start && a.span.stop ≤ b.span.stop)

/-- The bytes from `start` on, with the edits carried out; the edits are in the order of the
bytes. -/
def splice (bytes : ByteArray) (start : Nat) : List TextEdit → ByteArray
  | [] => bytes.extract start bytes.size
  | d :: ds =>
    bytes.extract start d.span.start ++ (d.text.toByteArray ++ splice bytes d.span.stop ds)

/-- The bytes of a text with all edits carried out at once. -/
def applyAll (text : String) (edits : List TextEdit) : ByteArray :=
  splice text.toByteArray 0 (edits.mergeSort isNoLater)

/-- What stands before all edits is kept. -/
theorem splice_eq_extract_append {bytes : ByteArray} {start p : Nat} {ds : List TextEdit}
    (hstart : start ≤ p) (hp : p ≤ bytes.size) (hds : ∀ d ∈ ds, p ≤ d.span.start) :
    splice bytes start ds = bytes.extract start p ++ splice bytes p ds := by
  cases ds with
  | nil => exact ByteArray.extract_eq_extract_append_extract p hstart hp
  | cons d ds =>
    rw [splice, splice, ← ByteArray.append_assoc (a := bytes.extract start p),
      ← ByteArray.extract_eq_extract_append_extract p hstart (hds d List.mem_cons_self)]

/-- The edit `a` is done before `b` begins, and they are not in the same place. -/
def Precedes (a b : TextEdit) : Prop := a.span.stop ≤ b.span.start ∧ a.span ≠ b.span

theorem isNoLater_iff {a b : TextEdit} : a.isNoLater b = true ↔
    a.span.start < b.span.start ∨ a.span.start = b.span.start ∧ a.span.stop ≤ b.span.stop := by
  rw [isNoLater, Bool.or_eq_true, Bool.and_eq_true, decide_eq_true_eq, decide_eq_true_eq,
    beq_iff_eq]

theorem isNoLater_trans (a b c : TextEdit) (hab : a.isNoLater b = true)
    (hbc : b.isNoLater c = true) : a.isNoLater c = true := by
  rw [isNoLater_iff] at *
  omega

theorem isNoLater_total (a b : TextEdit) : (a.isNoLater b || b.isNoLater a) = true := by
  rw [Bool.or_eq_true, isNoLater_iff, isNoLater_iff]
  omega

/-- Sorting brings edits into the order of the text. -/
theorem mergeSort_eq {ds ds' : List TextEdit} (hds : ds.Pairwise Precedes)
    (horder : ∀ d ∈ ds, d.span.start ≤ d.span.stop) (hperm : ds'.Perm ds) :
    ds'.mergeSort isNoLater = ds := by
  have hsorted : ds.Pairwise fun a b => a.isNoLater b = true := by
    refine hds.imp_of_mem ?_
    intro a b ha hb hab
    rw [isNoLater_iff]
    have h1 := horder a ha
    have h2 := horder b hb
    have h3 := hab.1
    omega
  -- no two of the edits have the same span
  have hinj : ∀ a ∈ ds, ∀ b ∈ ds, a.span = b.span → a = b := by
    have hnodup : (ds.map span).Nodup := List.pairwise_map.mpr (hds.imp fun h => h.2)
    exact fun a ha b hb hspan => List.inj_on_of_nodup_map hnodup ha hb hspan
  have hperm' : (ds'.mergeSort isNoLater).Perm ds := (List.mergeSort_perm _ _).trans hperm
  refine hperm'.eq_of_pairwise ?_ (List.pairwise_mergeSort isNoLater_trans isNoLater_total ds')
    hsorted
  intro a b ha hb hab hba
  apply hinj a (hperm'.mem_iff.mp ha) b hb
  rw [isNoLater_iff] at hab hba
  have hstart : a.span.start = b.span.start := by omega
  have hstop : a.span.stop = b.span.stop := by omega
  show Span.mk a.span.start a.span.stop = Span.mk b.span.start b.span.stop
  rw [hstart, hstop]

/-! ### Pieces of an edited text -/

/-- The bytes from `start` to `stop` come out as `text` when the edits are carried out.  The edits
stand in the order of the bytes and in different places; one that takes no bytes away stands
strictly inside. -/
structure Renders (bytes : ByteArray) (start stop : Nat) (ds : List TextEdit) (text : String) :
    Prop where
  start_le_stop : start ≤ stop
  within : ∀ d ∈ ds, start ≤ d.span.start ∧ d.span.start ≤ d.span.stop ∧ d.span.stop ≤ stop
  inside : ∀ d ∈ ds, d.span.start = d.span.stop → start < d.span.start ∧ d.span.stop < stop
  pairwise : ds.Pairwise Precedes
  splice_append : ∀ es, (∀ d ∈ es, stop ≤ d.span.start) →
    splice bytes start (ds ++ es) = text.toByteArray ++ splice bytes stop es

namespace Renders

variable {bytes : ByteArray} {start mid stop : Nat} {ds ds' : List TextEdit} {text text' : String}

/-- Without edits, bytes come out as they are. -/
theorem of_extract_eq (hle : start ≤ stop) (hsize : stop ≤ bytes.size)
    (h : bytes.extract start stop = text.toByteArray) : Renders bytes start stop [] text where
  start_le_stop := hle
  within := by simp
  inside := by simp
  pairwise := .nil
  splice_append es hes := by
    rw [List.nil_append, splice_eq_extract_append hle hsize hes, h]

/-- Bytes up to the end are exchanged, what stands before them is kept. -/
theorem of_exchange {new : String} (hle : start ≤ mid) (hlt : mid < stop)
    (h : bytes.extract start mid = text.toByteArray) :
    Renders bytes start stop [⟨⟨mid, stop⟩, new⟩] (text ++ new) where
  start_le_stop := Nat.le_trans hle (Nat.le_of_lt hlt)
  within := by
    rintro d hd
    rw [List.mem_singleton.mp hd]
    exact ⟨hle, Nat.le_of_lt hlt, Nat.le_refl _⟩
  inside := by
    rintro d hd hempty
    rw [List.mem_singleton.mp hd] at hempty
    exact absurd hempty (Nat.ne_of_lt hlt)
  pairwise := List.pairwise_singleton _ _
  splice_append es hes := by
    rw [List.singleton_append, splice, h, String.toByteArray_append, ByteArray.append_assoc]

theorem precedes (h : Renders bytes start mid ds text) (h' : Renders bytes mid stop ds' text') :
    ∀ d ∈ ds, ∀ d' ∈ ds', Precedes d d' := by
  intro d hd d' hd'
  have h1 := h.within d hd
  have h2 := h'.within d' hd'
  refine ⟨by omega, ?_⟩
  intro hspan
  -- edits in the same place would both be empty, where the two pieces meet
  have h3 := h.inside d hd
  rw [← hspan] at h2
  omega

/-- Pieces next to each other come out one after the other. -/
theorem append (h : Renders bytes start mid ds text) (h' : Renders bytes mid stop ds' text') :
    Renders bytes start stop (ds ++ ds') (text ++ text') where
  start_le_stop := Nat.le_trans h.start_le_stop h'.start_le_stop
  within d hd := by
    have h1 := h.start_le_stop
    have h2 := h'.start_le_stop
    rcases List.mem_append.mp hd with hd | hd
    · have := h.within d hd
      omega
    · have := h'.within d hd
      omega
  inside d hd hempty := by
    have h1 := h.start_le_stop
    have h2 := h'.start_le_stop
    rcases List.mem_append.mp hd with hd | hd
    · have := h.inside d hd hempty
      omega
    · have := h'.inside d hd hempty
      omega
  pairwise := List.pairwise_append.mpr ⟨h.pairwise, h'.pairwise, h.precedes h'⟩
  splice_append es hes := by
    have hmid : ∀ d ∈ ds' ++ es, mid ≤ d.span.start := by
      intro d hd
      rcases List.mem_append.mp hd with hd | hd
      · exact (h'.within d hd).1
      · exact Nat.le_trans h'.start_le_stop (hes d hd)
    rw [List.append_assoc, h.splice_append _ hmid, h'.splice_append es hes,
      String.toByteArray_append, ByteArray.append_assoc]

/-- Text can be put in between pieces that are not empty. -/
theorem insert {new : String} (h : Renders bytes start mid ds text)
    (h' : Renders bytes mid stop ds' text') (hlt : start < mid) (hlt' : mid < stop) :
    Renders bytes start stop (ds ++ ⟨⟨mid, mid⟩, new⟩ :: ds') (text ++ (new ++ text')) where
  start_le_stop := Nat.le_of_lt (Nat.lt_trans hlt hlt')
  within d hd := by
    rcases List.mem_append.mp hd with hd | hd
    · have := h.within d hd
      omega
    · rcases List.mem_cons.mp hd with rfl | hd
      · simp only
        omega
      · have := h'.within d hd
        omega
  inside d hd hempty := by
    rcases List.mem_append.mp hd with hd | hd
    · have := h.inside d hd hempty
      omega
    · rcases List.mem_cons.mp hd with rfl | hd
      · exact ⟨hlt, hlt'⟩
      · have := h'.inside d hd hempty
        omega
  pairwise := by
    -- an empty edit of a piece is strictly inside the piece, so it is not where the new one is
    refine List.pairwise_append.mpr ⟨h.pairwise, List.pairwise_cons.mpr ⟨?_, h'.pairwise⟩, ?_⟩
    · intro d hd
      refine ⟨(h'.within d hd).1, ?_⟩
      intro hspan
      have := h'.inside d hd (by rw [← hspan])
      rw [← hspan] at this
      exact absurd this.1 (Nat.lt_irrefl _)
    · intro d hd d' hd'
      rcases List.mem_cons.mp hd' with rfl | hd'
      · refine ⟨(h.within d hd).2.2, ?_⟩
        intro hspan
        have := h.inside d hd (by rw [hspan])
        rw [hspan] at this
        exact absurd this.2 (Nat.lt_irrefl _)
      · exact h.precedes h' d hd d' hd'
  splice_append es hes := by
    have hmid : ∀ d ∈ (⟨⟨mid, mid⟩, new⟩ : TextEdit) :: (ds' ++ es), mid ≤ d.span.start := by
      intro d hd
      rcases List.mem_cons.mp hd with rfl | hd
      · exact Nat.le_refl _
      · rcases List.mem_append.mp hd with hd | hd
        · exact (h'.within d hd).1
        · exact Nat.le_trans h'.start_le_stop (hes d hd)
    have hempty : bytes.extract mid mid = ByteArray.empty := by simp
    rw [List.append_assoc, List.cons_append, h.splice_append _ hmid, splice, hempty,
      ByteArray.empty_append, h'.splice_append es hes, String.toByteArray_append,
      String.toByteArray_append, ByteArray.append_assoc, ByteArray.append_assoc]

/-- A whole text comes out of carrying out all edits at once. -/
theorem applyAll_eq {old : String} (h : Renders old.toByteArray 0 old.utf8ByteSize ds text)
    (hperm : ds'.Perm ds) : applyAll old ds' = text.toByteArray := by
  have hsplice := h.splice_append [] (by simp)
  have hrest : splice old.toByteArray old.utf8ByteSize [] = ByteArray.empty := by
    simp [splice]
  rw [List.append_nil, hrest, ByteArray.append_empty] at hsplice
  rw [applyAll, mergeSort_eq h.pairwise (fun d hd => (h.within d hd).2.1) hperm, hsplice]

end Renders

end TextEdit

/-! ### The edits of a revision -/

/-- The shape begins with a token that has no trivia yet. -/
def Shape.Bare (s : Shape) : Prop := ∀ trivia, (s.withTrivia trivia).fullText = trivia ++ s.fullText

theorem Span.Tile.split {a b : Nat} {ss ts : List Span} {s : Span} (h : Tile a (ss ++ s :: ts) b) :
    Tile a ss s.start ∧ Tile s.start (s :: ts) b := by
  induction ss generalizing a with
  | nil =>
    obtain rfl : s.start = a := h.1
    exact ⟨rfl, h⟩
  | cons r ss ih =>
    obtain ⟨hfirst, hrest⟩ := ih h.2.2
    exact ⟨⟨h.1, h.2.1, hfirst⟩, hrest⟩

namespace Revision

open Element

variable {r : Revision}

/-- The edits of the text that a revision asks for at an element: a replaced element gives way to
the replacement, and what is inserted comes right before a child. -/
def textEditsAt (r : Revision) (x : Element) : List TextEdit :=
  match r.replacement? x.id, r.insertions x.id with
  | some s, _ => [⟨x.span, s.fullText⟩]
  | none, [] => []
  | none, (k, s) :: more =>
    let place := ((x.children[k]?).map (·.full.start)).getD x.full.stop
    [⟨⟨place, place⟩, Shape.fullTextAll (s :: more.map (·.2))⟩]

/-- The edits of the text that a revision asks for at an element and in it. -/
def textEdits (r : Revision) (e : Element) : List TextEdit := e.preorder.flatMap r.textEditsAt

/-- What a revision says of an element can be read as edits of the text: the element is replaced as
a whole, or all that is inserted comes before one child inside. -/
inductive Legible (r : Revision) (x : Element) : Prop
  | silent (h : r.Silent x.id)
  | replaced {s : Shape} (h : r.replacement? x.id = some s) (hs : s.Bare) (hx : x.Visible)
      (hbelow : ∀ c ∈ x.children, ∀ z, Below c z → r.Silent z.id)
  | extended {pre post : List Element} {c : Element} {ss : List Shape}
      (h : r.replacement? x.id = none) (hcs : x.children = pre ++ c :: post)
      (hss : r.insertions x.id = ss.map fun s => (pre.length, s)) (hne : ss ≠ [])
      (hstart : x.full.start < c.full.start) (hstop : c.full.start < x.full.stop)

theorem textEditsAt_of_silent {x : Element} (h : r.Silent x.id) : r.textEditsAt x = [] := by
  rw [textEditsAt, h.1, h.2]

theorem textEditsAt_of_replacement? {x : Element} {s : Shape} (h : r.replacement? x.id = some s) :
    r.textEditsAt x = [⟨x.span, s.fullText⟩] := by
  rw [textEditsAt, h]

theorem textEditsAt_of_insertions_eq {x c : Element} {pre post : List Element} {ss : List Shape}
    (h : r.replacement? x.id = none) (hcs : x.children = pre ++ c :: post)
    (hss : r.insertions x.id = ss.map fun s => (pre.length, s)) (hne : ss ≠ []) :
    r.textEditsAt x = [⟨⟨c.full.start, c.full.start⟩, Shape.fullTextAll ss⟩] := by
  obtain ⟨s, ss, rfl⟩ := List.exists_cons_of_ne_nil hne
  have hget : x.children[pre.length]? = some c := by
    rw [hcs, List.getElem?_append_right (Nat.le_refl _), Nat.sub_self]
    rfl
  rw [textEditsAt, h, hss, List.map_cons]
  have hmap : (ss.map fun s => (pre.length, s)).map (·.2) = ss := by
    rw [List.map_map]
    exact List.map_id ss
  simp only [hget, hmap, Option.map_some, Option.getD_some]

theorem textEdits_eq (e : Element) :
    r.textEdits e = r.textEditsAt e ++ e.children.flatMap r.textEdits := by
  cases e with
  | token l t => rw [textEdits, preorder_token, List.flatMap_singleton]; simp
  | node l cs =>
    rw [textEdits, preorder_node, List.flatMap_cons, List.flatMap_assoc]
    rfl

theorem flatMap_textEdits_of_silent {cs : List Element}
    (h : ∀ c ∈ cs, ∀ z, Below c z → r.Silent z.id) : cs.flatMap r.textEdits = [] := by
  rw [List.flatMap_eq_nil_iff]
  intro c hc
  rw [textEdits, List.flatMap_eq_nil_iff]
  intro z hz
  exact textEditsAt_of_silent (h c hc z (mem_preorder_iff.mp hz))

/-- Adding to what a revision says of one element adds the edits asked for there. -/
theorem textEdits_perm {r' : Revision} {e x : Element} (he : e.Distinct) (hx : Below e x)
    (hagree : ∀ id, id ≠ x.id → Agree r' r id) (hsilent : r.Silent x.id) :
    (r'.textEdits e).Perm (r'.textEditsAt x ++ r.textEdits e) := by
  obtain ⟨before, after, hsplit⟩ := List.append_of_mem (mem_preorder_iff.mpr hx)
  rw [Distinct, hsplit, List.map_append, List.map_cons] at he
  have hne : ∀ z, z ∈ before ∨ z ∈ after → z.id ≠ x.id := by
    intro z hz hid
    rw [List.nodup_append, List.nodup_cons] at he
    obtain ⟨-, ⟨hnotMem, -⟩, hcross⟩ := he
    rcases hz with hz | hz
    · exact hcross z.id (List.mem_map_of_mem hz) x.id List.mem_cons_self hid
    · exact hnotMem (hid ▸ List.mem_map_of_mem hz)
  have hsame : ∀ zs : List Element, (∀ z ∈ zs, z ∈ before ∨ z ∈ after) →
      zs.flatMap r'.textEditsAt = zs.flatMap r.textEditsAt := by
    intro zs hzs
    refine List.flatMap_congr ?_
    intro z hz
    obtain ⟨h1, h2⟩ := hagree z.id (hne z (hzs z hz))
    rw [textEditsAt, textEditsAt, h1, h2]
  rw [textEdits, textEdits, hsplit, List.flatMap_append, List.flatMap_append, List.flatMap_cons,
    List.flatMap_cons, textEditsAt_of_silent hsilent, hsame before fun _ => .inl,
    hsame after fun _ => .inr, List.nil_append]
  exact List.perm_append_comm_assoc _ _ _

/-! ### The text of a revised element -/

/-- Elements next to each other come out one after the other. -/
theorem exists_renders_of_tile {bytes : ByteArray} {start stop : Nat} {cs : List Element}
    (htile : Span.Tile start (cs.map full) stop) (hsize : stop ≤ bytes.size)
    (h : ∀ c ∈ cs, ∃ ds, ds.Perm (r.textEdits c) ∧
      TextEdit.Renders bytes c.full.start c.full.stop ds (r.revise c).fullText) :
    ∃ ds, ds.Perm (cs.flatMap r.textEdits) ∧
      TextEdit.Renders bytes start stop ds (Shape.fullTextAll (cs.map r.revise)) := by
  induction cs generalizing start with
  | nil =>
    obtain rfl : start = stop := htile
    refine ⟨[], .refl _, .of_extract_eq (Nat.le_refl _) hsize ?_⟩
    simp [Shape.fullTextAll]
  | cons c cs ih =>
    obtain ⟨rfl, -, hrest⟩ := htile
    obtain ⟨ds, hds, hc⟩ := h c List.mem_cons_self
    obtain ⟨ds', hds', hcs⟩ := ih hrest fun d hd => h d (List.mem_cons_of_mem c hd)
    exact ⟨ds ++ ds', hds.append hds', hc.append hcs⟩

/-- The bytes before the span of an element are the trivia of its first token. -/
theorem extract_leadingTrivia {e : Element} {bytes : ByteArray} (he : e.Placed)
    (hbytes : bytes.extract e.full.start e.full.stop = e.fullText.toByteArray) :
    bytes.extract e.full.start e.span.start = e.leadingTrivia.toByteArray := by
  have hfirst : (bytes.extract e.full.start e.full.stop).extract 0 e.leadingTrivia.utf8ByteSize
      = e.leadingTrivia.toByteArray := by
    rw [hbytes, e.fullText_eq_leadingTrivia_append_text, String.toByteArray_append]
    exact ByteArray.extract_append_eq_left rfl
  have hle : e.full.start + e.leadingTrivia.utf8ByteSize ≤ e.full.stop := by
    rw [he.stop_eq, e.fullText_eq_leadingTrivia_append_text, String.utf8ByteSize_append]
    omega
  rw [ByteArray.extract_extract, Nat.add_zero, Nat.min_eq_left hle] at hfirst
  rw [he.span_eq]
  exact hfirst

/-- A replaced element gives way to the replacement. -/
theorem renders_of_replacement? {e : Element} {bytes : ByteArray} {s : Shape} (he : e.Placed)
    (hbytes : bytes.extract e.full.start e.full.stop = e.fullText.toByteArray)
    (hs : r.replacement? e.id = some s) (hbare : s.Bare) (hvisible : e.Visible) :
    TextEdit.Renders bytes e.full.start e.full.stop [⟨e.span, s.fullText⟩]
      (r.revise e).fullText := by
  have hspan : e.span = ⟨e.span.start, e.full.stop⟩ := by rw [← he.span_stop]
  rw [Visible, he.span_stop] at hvisible
  rw [revise_of_replacement? hs, hbare, hspan]
  exact .of_exchange he.full_start_le_span_start hvisible (extract_leadingTrivia he hbytes)

/-- An element comes out revised when all edits that the revision asks for are carried out. -/
theorem exists_renders {e : Element} {bytes : ByteArray} (he : e.Placed)
    (hbytes : ∀ x, Below e x → bytes.extract x.full.start x.full.stop = x.fullText.toByteArray)
    (hsize : e.full.stop ≤ bytes.size) (h : ∀ x, Below e x → r.Legible x) :
    ∃ ds, ds.Perm (r.textEdits e) ∧
      TextEdit.Renders bytes e.full.start e.full.stop ds (r.revise e).fullText := by
  induction e using Element.induction with
  | token l t =>
    have htoken : r.textEdits (.token l t) = r.textEditsAt (.token l t) := by
      rw [textEdits_eq, children_token, List.flatMap_nil, List.append_nil]
    rw [htoken]
    cases h _ (.refl _) with
    | silent hsilent =>
      rw [textEditsAt_of_silent hsilent, revise_token_of_silent rfl hsilent, fullText_shape]
      exact ⟨[], .refl _, .of_extract_eq he.full_start_le_stop hsize (hbytes _ (.refl _))⟩
    | replaced hs hbare hvisible _ =>
      rw [textEditsAt_of_replacement? hs]
      exact ⟨_, .refl _, renders_of_replacement? he (hbytes _ (.refl _)) hs hbare hvisible⟩
    | extended _ hcs _ _ _ _ => simp at hcs
  | node l cs ih =>
    have hchild : ∀ c ∈ cs, ∃ ds, ds.Perm (r.textEdits c) ∧
        TextEdit.Renders bytes c.full.start c.full.stop ds (r.revise c).fullText := by
      intro c hc
      exact ih c hc (he.child hc) (fun x hx => hbytes x (.child hc hx))
        (Nat.le_trans (he.full_below (.of_child hc)).2 hsize) (fun x hx => h x (.child hc hx))
    have htile := he.tile_children rfl
    cases h _ (.refl _) with
    | silent hsilent =>
      rw [textEdits_eq, textEditsAt_of_silent hsilent, revise_node_of_silent rfl hsilent,
        Shape.fullText_node]
      exact exists_renders_of_tile htile hsize hchild
    | replaced hs hbare hvisible hbelow =>
      rw [textEdits_eq, textEditsAt_of_replacement? hs, flatMap_textEdits_of_silent hbelow]
      exact ⟨_, .refl _, renders_of_replacement? he (hbytes _ (.refl _)) hs hbare hvisible⟩
    | @extended pre post c ss hs hcs hss hne hstart hstop =>
      -- the insertion comes between the children before the place and those after it
      rw [hcs, List.map_append, List.map_cons] at htile
      obtain ⟨htile, htile'⟩ := htile.split
      obtain rfl : cs = pre ++ c :: post := hcs
      obtain ⟨ds, hds, hpre⟩ := exists_renders_of_tile htile
        (Nat.le_trans (Nat.le_of_lt hstop) hsize) fun d hd => hchild d (List.mem_append_left _ hd)
      obtain ⟨ds', hds', hpost⟩ := @exists_renders_of_tile r _ _ _ (c :: post) htile' hsize
        fun d hd => hchild d (List.mem_append_right _ hd)
      refine ⟨ds ++ ⟨⟨c.full.start, c.full.start⟩, Shape.fullTextAll ss⟩ :: ds', ?_, ?_⟩
      · rw [textEdits_eq, textEditsAt_of_insertions_eq hs rfl hss hne, children_node,
          List.flatMap_append]
        exact List.perm_middle.trans ((hds.append hds').cons _)
      · rw [revise_node_of_insertions_eq hs rfl hss, Shape.fullText_node,
          Shape.fullTextAll_append, Shape.fullTextAll_append]
        exact hpre.insert hpost hstart hstop

end Revision

/-- **The text of a revised tree** is the original text with all edits that the revision asks for
carried out at once. -/
theorem Tree.toByteArray_revise {t : Tree} {r : Revision} {ds : List TextEdit}
    (h : ∀ x, Element.Below t.top x → r.Legible x) (hperm : ds.Perm (r.textEdits t.top)) :
    (r.revise t.top).fullText.toByteArray = TextEdit.applyAll t.text ds := by
  have hstart := t.full_start_top
  have hstop : t.top.full.stop = t.text.utf8ByteSize := by
    rw [t.placed_top.stop_eq, hstart, Nat.zero_add]
    rfl
  obtain ⟨ds', hperm', hrenders⟩ := @Revision.exists_renders r _ t.text.toByteArray
    t.placed_top (fun x hx => (t.placed_top.full_delimits hstart hx).bytes_eq)
    (Nat.le_of_eq hstop) h
  rw [hstart, hstop] at hrenders
  exact (hrenders.applyAll_eq (hperm.trans hperm'.symm)).symm

end TreeLint
