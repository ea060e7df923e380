/-
TreeLint/Proofs/Fix/Steps.lean

Fixing one more diagnostic.

`Tree.textEdit?` says what the fix of a diagnostic comes to in the text, reading
nothing but the original tree.  A tree that has come of fixing some
diagnostics, back to front, is *amended*: its shape is a revision of the
original shape, and the edits that the revision asks for are those of the
diagnostics (`Amended`).

If a diagnostic flags a literal or a switch of the original tree and ends
before all those fixed so far begin, its fix works on the amended tree, and the
result is again amended, with one more edit (`Amended.exists_fix_eq`).  The
provider searches a tree with other numbers and other text further back; it
finds the element that the flagged one has become.
-/
import TreeLint.Fix.Plan
import TreeLint.Proofs.Fix.Amending

namespace TreeLint

open Element

/-! ### Edits computed from the original tree -/

/-- The text of new sections for the members of an enum. -/
def MissingCasesFix.sectionsText (indents : Indents) (enumName : String) (members : List String) :
    String :=
  String.join (members.map fun member =>
    indents.ofSection ++ "case " ++ enumName ++ "." ++ member ++ ":"
      ++ indents.ofStatement ++ "throw new NotImplementedException();")

/-- The edit of the text that the fix of a diagnostic comes to: `nameof` in the place of a literal,
or new sections before the default section of a switch, else before its closing brace. -/
def Tree.textEdit? (t : Tree) (d : Diagnostic) : Option TextEdit :=
  match d.payload with
  | .nameOfCandidate name => some ⟨d.span, "nameof(" ++ name ++ ")"⟩
  | .missingEnumCases enumName members => do
    let switch ← t.switchAt? d.span
    let anchor ← switch.children.find? isDefaultSection
      <|> switch.children.find? (·.kind == .closeBraceToken)
    return ⟨⟨anchor.full.start, anchor.full.start⟩,
      MissingCasesFix.sectionsText (MissingCasesFix.indents switch) enumName members⟩
  | _ => none

/-- The diagnostic flags a string literal of the tree, or the expression of a switch. -/
inductive Diagnostic.Flags (t : Tree) (d : Diagnostic) : Prop
  | literal {x token : Element} {name : String} (hrule : d.ruleId = "SC0003")
      (hpayload : d.payload = .nameOfCandidate name) (hx : Below t.top x)
      (hkind : x.kind = .literalExpression)
      (htoken : x.childOfKind? .stringLiteralToken = some token) (htext : token.tokenText ≠ "")
      (hspan : d.span = x.span)
  | switch {x expression : Element} {enumName : String} {members : List String}
      (hrule : d.ruleId = "SC0002") (hpayload : d.payload = .missingEnumCases enumName members)
      (hmembers : members ≠ []) (hx : Below t.top x)
      (hexpression : x.switchExpression? = some expression) (hspan : d.span = expression.span)

/-! ### Amended trees -/

/-- The tree `T` has come of fixing diagnostics of `t` at the given spans. -/
structure Amended (t : Tree) (r : Revision) (spans : List Span) (edits : List TextEdit) (T : Tree) :
    Prop where
  shape_eq : T.top.shape = r.revise t.top
  touch : ∀ x, Below t.top x → r.Touch spans x
  perm : edits.Perm (r.textEdits t.top)

namespace Amended

variable {t T T' : Tree} {r r' : Revision} {spans : List Span} {edits : List TextEdit}
variable {x m : Element}

/-- Without any fix, the tree is as it was. -/
theorem refl (t : Tree) : Amended t {} [] [] t where
  shape_eq := (Revision.revise_empty t.top).symm
  touch _ _ := .silent ⟨rfl, rfl⟩
  perm := by
    rw [Revision.textEdits_eq, Revision.textEditsAt_of_silent ⟨rfl, rfl⟩,
      Revision.flatMap_textEdits_of_silent fun _ _ _ _ => ⟨rfl, rfl⟩]
    rfl

/-- The text is the original text with all edits carried out at once. -/
theorem toByteArray_text (h : Amended t r spans edits T) :
    T.text.toByteArray = TextEdit.applyAll t.text edits := by
  rw [Tree.text, ← fullText_shape, h.shape_eq]
  exact Tree.toByteArray_revise (fun x hx => (h.touch x hx).legible (t.placed_top.below hx)) h.perm

/-- An element around a node that ends before all spans begin can be found again in the same
place, and revising it there is revising more of the original tree. -/
theorem exists_trace (h : Amended t r spans edits T) (hx : Below t.top x) (hm : Below x m)
    (hv : m.Visible) (hnode : m.isToken = false) (hspans : ∀ s ∈ spans, m.span.stop ≤ s.start) :
    ∃ y, Below T.top y ∧ y.shape = r.revise x ∧ y.full.start = x.full.start ∧
      ∀ r' g : Revision, (∀ id, id ≠ x.id → r'.Agree r id) → (∀ id, id ≠ y.id → g.Silent id) →
        g.revise y = r'.revise x → g.revise T.top = r'.revise t.top := by
  have htop := t.placed_top
  have hxm := htop.below hx
  obtain ⟨y, hy, hshape, hstart, hmore⟩ := Revision.exists_trace hx h.shape_eq
    (fun z hz hzx => (h.touch z hz).silent_of_above (htop.below hz) (hzx.trans hm) hv hnode hspans)
    t.distinct_top T.distinct_top
  refine ⟨y, hy, hshape, ?_, hmore⟩
  apply hstart htop T.placed_top (by rw [t.full_start_top, T.full_start_top])
  intro z hz hbefore
  have hle := (hxm.full_below hm).1
  exact (h.touch z hz).silent_of_before (hxm.below hm) hv (htop.below hz)
    (Nat.le_trans hbefore hle) hspans

/-- One more element may be touched around a node that ends before all spans begin. -/
theorem extend (h : Amended t r spans edits T) (hx : Below t.top x) (hm : Below x m)
    (hv : m.Visible) (hnode : m.isToken = false) (hspans : ∀ s ∈ spans, m.span.stop ≤ s.start)
    (hr' : ∀ id, id ≠ x.id → r'.Agree r id) (htouch : r'.Touch (spans ++ [m.span]) x)
    {edit : TextEdit} (hedit : r'.textEditsAt x = [edit]) (hT' : T'.top.shape = r'.revise t.top) :
    Amended t r' (spans ++ [m.span]) (edits ++ [edit]) T' where
  shape_eq := hT'
  touch z hz := by
    have htop := t.placed_top
    by_cases hid : z.id = x.id
    · rw [Tree.eq_of_id_eq hz hx hid]
      exact htouch
    · obtain ⟨hreplacement, hinsertions⟩ := hr' z.id hid
      have hz' := h.touch z hz
      cases hz' with
      | silent hs => exact .silent ⟨hreplacement.trans hs.1, hinsertions.trans hs.2⟩
      | literal hkind hznode hvisible hs hbelow hspan =>
        refine .literal hkind hznode hvisible (hreplacement.trans hs) ?_
          (List.mem_append_left _ hspan)
        intro c hc w hw
        -- the element newly touched does not lie in the literal, which has been replaced
        have hne : w.id ≠ x.id := by
          intro hwx
          obtain rfl := Tree.eq_of_id_eq (hz.trans (.child hc hw)) hx hwx
          have hsilent := (h.touch z hz).silent_of_above (htop.below hz)
            ((Below.child hc hw).trans hm) hv hnode hspans
          rw [hsilent.1] at hs
          cases hs
        obtain ⟨h1, h2⟩ := hr' w.id hne
        have hw' := hbelow c hc w hw
        exact ⟨h1.trans hw'.1, h2.trans hw'.2⟩
      | switch hkind hparts hcs hpre hs hss hne hspan =>
        exact .switch hkind hparts hcs hpre (hreplacement.trans hs) (hinsertions.trans hss) hne
          (List.mem_append_left _ hspan)
  perm := by
    have hsilent : r.Silent x.id :=
      (h.touch x hx).silent_of_above (t.placed_top.below hx) hm hv hnode hspans
    have hperm := Revision.textEdits_perm t.distinct_top hx hr' hsilent
    rw [hedit] at hperm
    exact (List.perm_append_singleton edit edits).trans ((h.perm.cons edit).trans hperm.symm)

end Amended

/-! ### Literals -/

namespace Element

variable {e n x y token : Element}

/-- No other node in an element with a token that is not empty has the span of the element. -/
theorem Placed.eq_of_span_eq (he : e.Placed) (hmem : token ∈ e.children)
    (htoken : token.isToken = true) (hv : token.Visible) (hn : Below e n)
    (hnode : n.isToken = false) (hspan : n.span = e.span) : n = e := by
  cases hn with
  | refl => rfl
  | @child _ c _ hc hn =>
    exfalso
    have hne : c ≠ token := by
      rintro rfl
      rw [hn.eq_of_isToken htoken, htoken] at hnode
      cases hnode
    have hn' := (he.child hc).full_below hn
    have hplaced := (he.child hc).below hn
    have htokenPlaced := he.child hmem
    have hstart := he.span_start_le (.of_child hmem) hv
    have hstop := (he.full_below (.of_child hmem)).2
    have h1 := htokenPlaced.full_start_le_span_start
    have h2 := hplaced.full_start_le_span_start
    have h3 := hplaced.span_stop
    rw [hspan] at h2 h3
    rw [he.span_stop] at h3
    rw [Visible, htokenPlaced.span_stop] at hv
    rcases he.stop_le_start_or hc hmem hne with hle | hle <;> omega

theorem Placed.span_eq_of_shape_eq (hx : x.Placed) (hy : y.Placed) (hshape : y.shape = x.shape)
    (hstart : y.full.start = x.full.start) : y.span = x.span := by
  rw [hx.span_eq, hy.span_eq, hx.stop_eq, hy.stop_eq, hstart, ← fullText_shape y,
    ← leadingTrivia_shape y, hshape, fullText_shape, leadingTrivia_shape]

theorem text_eq_of_shape_eq (hshape : y.shape = x.shape) : y.text = x.text := by
  rw [text, text, ← fullText_shape y, ← leadingTrivia_shape y, hshape, fullText_shape,
    leadingTrivia_shape]

theorem isToken_of_tokenText_ne (h : token.tokenText ≠ "") :
    token.isToken = true ∧ token.text ≠ "" := by
  cases token with
  | node l cs => exact absurd rfl h
  | token l t =>
    have htext : t.trivia ++ t.text = t.trivia ++ (Element.token l t).text := by
      rw [← fullText_token l t]
      exact fullText_eq_leadingTrivia_append_text _
    rw [← (String.append_right_inj t.trivia).mp htext]
    exact ⟨rfl, h⟩

/-- An element with a token that is not empty is not empty either. -/
theorem Placed.visible_of_childOfKind? (hx : x.Placed) {kind : Kind}
    (htoken : x.childOfKind? kind = some token) (htext : token.tokenText ≠ "") : x.Visible := by
  have hmem : token ∈ x.children := List.mem_of_find?_eq_some htoken
  have hvisible := (hx.child hmem).visible_iff.mpr (isToken_of_tokenText_ne htext).2
  exact hx.visible_of_below (.of_child hmem) hvisible

end Element

/-- The fix works if a string literal is found and can be replaced. -/
theorem NameOfFix.correct_eq_ok {T T' replacement : Tree} {d : Diagnostic} {name : String}
    {y : Element} (hpayload : d.payload = .nameOfCandidate name)
    (hfound : T.nodeAt? d.span = some y) (hliteral : isStringLiteral y.peelParentheses = true)
    (hreplacement : Tree.ofSteps (Phrase.nameOf name) = .ok replacement)
    (hT' : T.edit (({} : Edits).replace y.peelParentheses.id replacement) = .ok T') :
    correct T d = .ok T' := by
  simp [correct, propertyName?, hpayload, Tree.flaggedNode, hfound, hliteral, hreplacement, hT',
    Except.mapError, bind, Except.bind]

namespace Amended

variable {t T : Tree} {r : Revision} {spans : List Span} {edits : List TextEdit} {x : Element}
variable {d : Diagnostic}

/-- The literal that is flagged next is found again. -/
theorem exists_literal (h : Amended t r spans edits T) (hx : Below t.top x)
    (hkind : x.kind = .literalExpression) {token : Element}
    (htoken : x.childOfKind? .stringLiteralToken = some token) (htext : token.tokenText ≠ "")
    (hspans : ∀ s ∈ spans, x.span.stop ≤ s.start) :
    ∃ y, T.nodeAt? x.span = some y ∧ Below T.top y ∧ y.shape = x.shape ∧
      NameOfFix.isStringLiteral y = true ∧
      ∀ r' g : Revision, (∀ id, id ≠ x.id → r'.Agree r id) → (∀ id, id ≠ y.id → g.Silent id) →
        g.revise y = r'.revise x → g.revise T.top = r'.revise t.top := by
  have hmem : token ∈ x.children := List.mem_of_find?_eq_some htoken
  have hnode := isToken_of_mem_children hmem
  have hplaced := t.placed_top.below hx
  have hvisible := hplaced.visible_of_childOfKind? htoken htext
  obtain ⟨hisToken, htext⟩ := isToken_of_tokenText_ne htext
  obtain ⟨y, hy, hshape, hstart, hmore⟩ := h.exists_trace hx (.refl x) hvisible hnode hspans
  have hsame : r.revise x = x.shape := Revision.revise_of_silent fun z hz =>
    (h.touch z (hx.trans hz)).silent_of_below hplaced hz hspans
  rw [hsame] at hshape
  have hyplaced := T.placed_top.below hy
  have hspan := hplaced.span_eq_of_shape_eq hyplaced hshape hstart
  -- what became of the literal has a string token, too
  obtain ⟨hynode, hykind, hycs⟩ := of_shape_eq hshape
  have hbeq : ∀ c ∈ x.children, ∀ f : Element, f.shape = c.shape →
      (f.kind == .stringLiteralToken) = (c.kind == .stringLiteralToken) := by
    intro c _ f hf
    rw [(of_shape_eq hf).2.1]
  obtain ⟨_, _, _, token', _, -, -, -, htoken', -, hfind⟩ :=
    Revision.exists_find?_eq hycs hbeq htoken
  have hmem' := List.mem_of_find?_eq_some hfind
  have hvisible' : token'.Visible := by
    rw [(hyplaced.child hmem').visible_iff, text_eq_of_shape_eq htoken']
    exact htext
  -- and nothing else in it is found at its span
  obtain ⟨n, hn, hbelow, hnnode, hnspan⟩ := T.exists_nodeAt?_eq hy
    (by rw [Visible, hspan]; exact hvisible) (hynode.trans hnode)
  obtain rfl : n = y := hyplaced.eq_of_span_eq hmem' ((of_shape_eq htoken').1.trans hisToken)
    hvisible' hbelow hnnode hnspan
  rw [hspan] at hn
  refine ⟨n, hn, hy, hshape, ?_, hmore⟩
  rw [NameOfFix.isStringLiteral, hykind, hkind, childOfKind?, hfind]
  rfl

/-- The literal that is flagged next becomes `nameof`. -/
theorem exists_nameOf_eq (h : Amended t r spans edits T) (hx : Below t.top x)
    (hkind : x.kind = .literalExpression) {token : Element}
    (htoken : x.childOfKind? .stringLiteralToken = some token) (htext : token.tokenText ≠ "")
    (hspan : d.span = x.span) (hspans : ∀ s ∈ spans, d.span.stop ≤ s.start) {name : String}
    (hpayload : d.payload = .nameOfCandidate name) :
    ∃ T' r', NameOfFix.correct T d = .ok T' ∧
      Amended t r' (spans ++ [d.span]) (edits ++ [⟨d.span, "nameof(" ++ name ++ ")"⟩]) T' := by
  rw [hspan] at hspans ⊢
  obtain ⟨y, hfound, hy, hshape, hliteral, hmore⟩ :=
    h.exists_literal hx hkind htoken htext hspans
  -- a literal is not in parentheses of its own
  have hpeel : y.peelParentheses = y := by
    have hykind : y.kind = .literalExpression := (of_shape_eq hshape).2.1.trans hkind
    cases y with
    | token l t => rfl
    | node l cs =>
      rw [peelParentheses, if_neg]
      rw [show l.kind = _ from hykind]
      decide
  obtain ⟨replacement, hreplacement, hrshape⟩ := Tree.exists_ofSteps_nameOf name
  obtain ⟨T', hT', hT'shape⟩ := Tree.exists_edit_replace_eq hy replacement
  rw [hrshape] at hT'shape
  refine ⟨T', r.replace x.id (.nameOf name), ?_, ?_⟩
  · rw [← hspan] at hfound
    rw [← hpeel] at hliteral hT'
    exact NameOfFix.correct_eq_ok hpayload hfound hliteral hreplacement hT'
  · -- the replacement takes over the trivia, which are those of the original literal
    have hrevise : (({} : Revision).replace y.id (.nameOf name)).revise y
        = (r.replace x.id (.nameOf name)).revise x := by
      rw [Revision.revise_of_replacement? (Revision.replacement?_replace _ _ _),
        Revision.revise_of_replacement? (Revision.replacement?_replace _ _ _),
        ← leadingTrivia_shape, hshape, leadingTrivia_shape]
    have hmem : token ∈ x.children := List.mem_of_find?_eq_some htoken
    have hplaced := t.placed_top.below hx
    have hvisible := hplaced.visible_of_childOfKind? htoken htext
    have hnode := isToken_of_mem_children hmem
    have hother : ∀ id, id ≠ x.id → (r.replace x.id (.nameOf name)).Agree r id :=
      fun _ hid => Revision.agree_replace _ hid
    refine h.extend hx (.refl x) hvisible hnode hspans hother ?_ ?_ ?_
    · refine .literal hkind hnode hvisible (Revision.replacement?_replace _ _ _) ?_
        (List.mem_append_right _ List.mem_cons_self)
      intro c hc z hz
      obtain ⟨h1, h2⟩ := hother z.id ((t.distinct_top.below hx).id_ne_of_child hc hz)
      have hsilent := (h.touch z (hx.trans (.child hc hz))).silent_of_below hplaced (.child hc hz)
        hspans
      exact ⟨h1.trans hsilent.1, h2.trans hsilent.2⟩
    · rw [Revision.textEditsAt_of_replacement? (Revision.replacement?_replace _ _ _),
        Shape.fullText_nameOf]
    · rw [hT'shape]
      refine hmore _ _ hother ?_ hrevise
      intro id hid
      exact Revision.agree_replace _ hid

end Amended

/-! ### Switches -/

namespace Element

variable {e f z g expression : Element}

/-- What lies in an element has its like in every element of the same shape. -/
theorem Below.exists_of_shape_eq (h : Below f z) (hshape : f.shape = e.shape) :
    ∃ w, Below e w ∧ z.shape = w.shape := by
  induction h generalizing e with
  | refl => exact ⟨e, .refl e, hshape⟩
  | @child f c z hc _ ih =>
    have hmem : c.shape ∈ e.children.map shape :=
      (of_shape_eq hshape).2.2 ▸ List.mem_map_of_mem hc
    obtain ⟨d, hd, hdc⟩ := List.mem_map.mp hmem
    obtain ⟨w, hw, hzw⟩ := ih hdc.symm
    exact ⟨w, .child hd hw, hzw⟩

theorem StartsWithToken.of_shape_eq (h : e.StartsWithToken) (hshape : f.shape = e.shape) :
    f.StartsWithToken := by
  obtain ⟨first, rest, hcs, htoken, htext⟩ := h
  have hmap := (Element.of_shape_eq hshape).2.2
  rw [hcs] at hmap
  obtain ⟨first', rest', hcs', hfirst, -⟩ := List.map_eq_cons_iff.mp hmap
  refine ⟨first', rest', hcs', ?_, ?_⟩
  · rw [(Element.of_shape_eq hfirst).1, htoken]
  · rw [text_eq_of_shape_eq hfirst]
    exact htext

/-- A switch in an expression does not branch on all of the expression. -/
theorem any_switchExpression?_eq_false (hg : g.Placed) (hv : g.Visible)
    (hshape : g.shape = expression.shape)
    (ht : ∀ w, Below expression w → w.kind = .switchStatement → w.isToken = false →
      w.StartsWithToken) (hz : Below g z) :
    (z.kind == .switchStatement && z.switchExpression?.any (·.span == g.span)) = false := by
  rw [Bool.eq_false_iff]
  intro htrue
  obtain ⟨hkind, hany⟩ := (Bool.and_eq_true _ _).mp htrue
  obtain ⟨e, he, hspan⟩ := (Option.any_eq_true _ _).mp hany
  obtain ⟨-, hmem, hnode⟩ := of_switchExpression?_eq_some he
  rw [beq_iff_eq] at hkind hspan
  obtain ⟨w, hw, hzw⟩ := hz.exists_of_shape_eq hshape
  obtain ⟨hwnode, hwkind, -⟩ := of_shape_eq hzw
  have hstarts := ht w hw (hwkind.symm.trans hkind)
    (hwnode.symm.trans (isToken_of_mem_children hmem))
  have hzplaced := hg.below hz
  have hevisible : e.Visible := by
    rw [Visible, hspan]
    exact hv
  have hlt := (hstarts.of_shape_eq hzw).span_start_lt hzplaced hmem hnode
  have hle := hg.span_start_le hz (hzplaced.visible_of_below (.of_child hmem) hevisible)
  rw [hspan] at hlt
  omega

end Element

namespace MissingCasesFix

/-- Going up from the expression, the switch that branches on it comes first. -/
theorem switchOn?_eq {T : Tree} {y g n : Element} (hy : Below T.top y)
    (hg : g ∈ y.children) (hyg : y.switchExpression? = some g) (hn : Below g n)
    (hinner : ∀ z, Below g z →
      (z.kind == .switchStatement && z.switchExpression?.any (·.span == g.span)) = false) :
    switchOn? T n g.span = some y := by
  obtain ⟨outer, houter⟩ := hy.exists_lineage
  obtain ⟨inner, hlineage⟩ := hn.exists_lineage
  have hall := houter.trans ((Lineage.child hg (.refl g)).trans hlineage)
  have hnone : (n :: inner).find? (fun z =>
      z.kind == .switchStatement && z.switchExpression?.any (·.span == g.span)) = none := by
    rw [List.find?_eq_none]
    intro z hz
    rw [Bool.not_eq_true]
    rcases List.mem_cons.mp hz with rfl | hz
    · exact hinner z hn
    · exact hinner z (hlineage.below_of_mem hz)
  have hfound : (y.kind == .switchStatement && y.switchExpression?.any (·.span == g.span))
      = true := by
    rw [(of_switchExpression?_eq_some hyg).1, hyg]
    simp
  rw [switchOn?, Tree.ancestors_eq (hy.trans (.child hg hn)) hall, List.nil_append,
    List.append_assoc, ← List.cons_append, List.find?_append, hnone, Option.none_or,
    List.singleton_append, List.find?_cons_of_pos]
  exact hfound

theorem join_cons (s : String) (ss : List String) : String.join (s :: ss) = s ++ String.join ss := by
  have hfold : ∀ (ss : List String) (a : String),
      ss.foldl (fun r s => r ++ s) a = a ++ ss.foldl (fun r s => r ++ s) "" := by
    intro ss
    induction ss with
    | nil => simp
    | cons s ss ih =>
      intro a
      rw [List.foldl_cons, List.foldl_cons, ih, ih ("" ++ s), String.append_assoc,
        String.empty_append]
  show ss.foldl (fun r s => r ++ s) ("" ++ s) = s ++ ss.foldl (fun r s => r ++ s) ""
  rw [hfold, String.empty_append]

/-- The text of the shapes of new sections. -/
theorem fullTextAll_missingCases (indents : Indents) (enumName : String) (members : List String) :
    Shape.fullTextAll (members.map fun member =>
      Shape.missingCase enumName member indents.ofSection indents.ofStatement)
      = sectionsText indents enumName members := by
  induction members with
  | nil => rfl
  | cons member members ih =>
    rw [List.map_cons, Shape.fullTextAll, Shape.fullText_missingCase, ih, sectionsText,
      sectionsText, List.map_cons, join_cons]

/-- The fragments for the members of an enum are inserted one by one. -/
theorem exists_addSections_eq (T : Tree) (y : Element) (enumName : String)
    (members : List String) :
    ∃ fragments : List Tree,
      addSections T y enumName members
        = .ok (fragments.foldl (fun edits f => edits.insert y.id (insertionIndex T y) f) {}) ∧
      fragments.map (·.top.shape) = members.map fun member =>
        Shape.missingCase enumName member (indents y).ofSection (indents y).ofStatement := by
  rw [addSections]
  generalize ({} : Edits) = edits
  induction members generalizing edits with
  | nil => exact ⟨[], rfl, rfl⟩
  | cons member members ih =>
    obtain ⟨f, hf, hshape⟩ := Tree.exists_ofSteps_missingCase enumName member
      (indents y).ofSection (indents y).ofStatement
    obtain ⟨fragments, hfragments, hshapes⟩ := ih (edits.insert y.id (insertionIndex T y) f)
    refine ⟨f :: fragments, ?_, ?_⟩
    · rw [List.foldlM_cons, hf]
      exact hfragments
    · rw [List.map_cons, List.map_cons, hshape, hshapes]

/-- The fix works if a switch is found and sections can be added. -/
theorem correct_eq_ok {T T' : Tree} {d : Diagnostic} {enumName : String} {members : List String}
    {n y : Element} {edits : Edits} (hpayload : d.payload = .missingEnumCases enumName members)
    (hmembers : members ≠ []) (hfound : T.nodeAt? d.span = some n)
    (hswitch : switchOn? T n d.span = some y) (hedits : addSections T y enumName members = .ok edits)
    (hT' : T.edit edits = .ok T') : correct T d = .ok T' := by
  have hempty : members.isEmpty = false := by
    rw [Bool.eq_false_iff, Ne, List.isEmpty_iff]
    exact hmembers
  simp [correct, hpayload, hempty, Tree.flaggedNode, hfound, hswitch, hedits, hT', Except.mapError,
    bind, Except.bind]

end MissingCasesFix

namespace Amended

open MissingCasesFix

variable {t T : Tree} {r : Revision} {spans : List Span} {edits : List TextEdit}
variable {x expression : Element} {d : Diagnostic}

/-- In what has become of a switch, the expression flagged next is in the same place. -/
theorem exists_expression (h : Amended t r spans edits T) (hx : Below t.top x)
    (hkind : x.kind = .switchStatement) {keyword brace : Element} {before after : List Element}
    (hparts : SwitchParts x keyword before expression after brace)
    (hspans : ∀ s ∈ spans, expression.span.stop ≤ s.start) {y : Element} (hy : Below T.top y)
    (hykind : y.kind = x.kind) (hycs : y.children.map shape = x.children.map r.revise)
    (hstart : y.full.start = x.full.start) :
    ∃ g ∈ y.children, y.switchExpression? = some g ∧ g.shape = expression.shape ∧
      g.span = expression.span := by
  have hmem := hparts.expression_mem
  have hcs := hparts.children_eq_front
  have hplaced := t.placed_top.below hx
  have hyplaced := T.placed_top.below hy
  -- neither the tokens before the expression nor the expression have been revised
  have hquiet : (keyword :: before).map r.revise = (keyword :: before).map shape := by
    apply Revision.map_revise_of_silent
    intro c hc z hz
    have htoken := hparts.isToken_of_mem_front hc
    rw [hz.eq_of_isToken htoken]
    exact (h.touch c (hx.trans (.of_child (hcs ▸ List.mem_append_left _ hc)))).silent_of_isToken
      htoken
  have hsame : r.revise expression = expression.shape := Revision.revise_of_silent fun z hz =>
    (h.touch z (hx.trans (.child hmem hz))).silent_of_below (hplaced.child hmem) hz hspans
  obtain ⟨pre, g, post, hys, hpre, hg, -⟩ := exists_split hycs hcs
  rw [hquiet] at hpre
  rw [hsame] at hg
  have hgmem : g ∈ y.children := hys ▸ List.mem_append_right _ List.mem_cons_self
  obtain ⟨hgnode, hgkind, -⟩ := of_shape_eq hg
  have hpretokens : ∀ c ∈ pre, c.isToken = true := by
    intro c hc
    obtain ⟨z, hz, hzc⟩ := List.mem_map.mp
      (hpre ▸ List.mem_map_of_mem hc : c.shape ∈ (keyword :: before).map shape)
    rw [(of_shape_eq hzc.symm).1]
    exact hparts.isToken_of_mem_front hz
  refine ⟨g, hgmem, ?_, hg, ?_⟩
  · exact switchExpression?_of_children_eq (hykind.trans hkind) hys hpretokens
      (hgnode.trans hparts.expression_isToken) (hgkind ▸ hparts.expression_kind)
  · apply (hplaced.child hmem).span_eq_of_shape_eq (hyplaced.child hgmem) hg
    rw [hyplaced.child_start hys, hplaced.child_start hcs, hstart, fullTextAll_eq_of_shapes hpre]

/-- The switch that branches on the expression flagged next is found again. -/
theorem exists_switch (h : Amended t r spans edits T) (ht : t.top.WellFormedSwitches)
    (hx : Below t.top x) (hexpression : x.switchExpression? = some expression)
    (hspans : ∀ s ∈ spans, expression.span.stop ≤ s.start) :
    ∃ n y, T.nodeAt? expression.span = some n ∧ switchOn? T n expression.span = some y ∧
      Below T.top y ∧ y.kind = x.kind ∧ y.children.map shape = x.children.map r.revise ∧
      ∀ r' g : Revision, (∀ id, id ≠ x.id → r'.Agree r id) → (∀ id, id ≠ y.id → g.Silent id) →
        g.revise y = r'.revise x → g.revise T.top = r'.revise t.top := by
  obtain ⟨hkind, hmem, hnode⟩ := of_switchExpression?_eq_some hexpression
  have hxnode := isToken_of_mem_children hmem
  obtain ⟨keyword, before, after, brace, hparts⟩ := ht.exists_parts hx hexpression
  have hplaced := t.placed_top.below hx
  have hvisible := hparts.visible_expression hplaced
  obtain ⟨y, hy, hshape, hstart, hmore⟩ :=
    h.exists_trace hx (.of_child hmem) hvisible hnode hspans
  have hsilent : r.Silent x.id :=
    (h.touch x hx).silent_of_above hplaced (.of_child hmem) hvisible hnode hspans
  rw [Revision.revise_node_of_silent hxnode hsilent] at hshape
  obtain ⟨-, hykind, hycs⟩ := of_shape_eq_node hshape
  obtain ⟨g, hgmem, hyg, hg, hgspan⟩ :=
    h.exists_expression hx hkind hparts hspans hy hykind hycs hstart
  have hgplaced := (T.placed_top.below hy).child hgmem
  have hgvisible : g.Visible := by
    rw [Visible, hgspan]
    exact hvisible
  have hgnode := (of_shape_eq hg).1
  -- the provider starts from a node in the expression, and goes up to the switch
  obtain ⟨n, hn, hbelow, -, -⟩ :=
    T.exists_nodeAt?_eq (hy.trans (.of_child hgmem)) hgvisible (hgnode.trans hnode)
  have hswitch := switchOn?_eq hy hgmem hyg hbelow fun z hz =>
    any_switchExpression?_eq_false hgplaced hgvisible hg
      (fun w hw hwkind hwnode =>
        (ht w (hx.trans (.child hmem hw)) hwkind hwnode).startsWithToken) hz
  rw [hgspan] at hn hswitch
  exact ⟨n, y, hn, hswitch, hy, hykind, hycs, hmore⟩

/-- Inserting into what has become of an element is inserting into the element. -/
theorem revise_insert_eq {y c c' : Element} {pre pre' rest rest' : List Element} {ss : List Shape}
    (hx : x.Distinct) (hy : y.Distinct) (hkind : y.kind = x.kind)
    (hreplacement : r.replacement? x.id = none) (hxs : x.children = pre ++ c :: rest)
    (hys : y.children = pre' ++ c' :: rest') (hpre : pre'.map shape = pre.map r.revise)
    (hc : c'.shape = r.revise c) (hrest : rest'.map shape = rest.map r.revise) :
    (({} : Revision).insert y.id pre.length ss).revise y
      = (r.insert x.id pre.length ss).revise x := by
  have hlength : pre.length = pre'.length := by
    have := congrArg List.length hpre
    rwa [List.length_map, List.length_map, eq_comm] at this
  -- neither insertion says anything of the children
  have hxcs : ∀ cs : List Element, (∀ c ∈ cs, c ∈ x.children) →
      cs.map (r.insert x.id pre.length ss).revise = cs.map r.revise := by
    intro cs hcs
    refine List.map_congr_left fun c hc => Revision.revise_congr fun z hz => ?_
    exact Revision.agree_insert _ _ (hx.id_ne_of_child (hcs c hc) hz)
  have hycs : ∀ cs : List Element, (∀ c ∈ cs, c ∈ y.children) →
      cs.map (({} : Revision).insert y.id pre.length ss).revise = cs.map shape := by
    intro cs hcs
    refine Revision.map_revise_of_silent fun c hc z hz => ?_
    exact Revision.agree_insert _ _ (hy.id_ne_of_child (hcs c hc) hz)
  have hright : (r.insert x.id pre.length ss).revise x = .node x.kind
      (pre.map (r.insert x.id pre.length ss).revise
        ++ (ss ++ (c :: rest).map (r.insert x.id pre.length ss).revise)) :=
    Revision.revise_node_of_insertions_eq hreplacement hxs (Revision.insertions_insert _ _ _ _)
  have hleft : (({} : Revision).insert y.id pre.length ss).revise y = .node y.kind
      (pre'.map (({} : Revision).insert y.id pre.length ss).revise
        ++ (ss ++ (c' :: rest').map (({} : Revision).insert y.id pre.length ss).revise)) := by
    apply Revision.revise_node_of_insertions_eq rfl hys
    rw [Revision.insertions_insert, hlength]
  rw [hleft, hright, hxcs pre fun c hc => hxs ▸ List.mem_append_left _ hc,
    hxcs (c :: rest) fun c hc => hxs ▸ List.mem_append_right _ hc,
    hycs pre' fun c hc => hys ▸ List.mem_append_left _ hc,
    hycs (c' :: rest') fun c hc => hys ▸ List.mem_append_right _ hc, hpre, hkind,
    List.map_cons, List.map_cons, hc, hrest]

/-- The switch that is flagged next gets its sections. -/
theorem exists_missingCases_eq (h : Amended t r spans edits T) (ht : t.top.WellFormedSwitches)
    (hx : Below t.top x) (hexpression : x.switchExpression? = some expression)
    (hspan : d.span = expression.span) (hspans : ∀ s ∈ spans, d.span.stop ≤ s.start)
    {enumName : String} {members : List String}
    (hpayload : d.payload = .missingEnumCases enumName members) (hmembers : members ≠ []) :
    ∃ T' r' edit, MissingCasesFix.correct T d = .ok T' ∧ t.textEdit? d = some edit ∧
      Amended t r' (spans ++ [d.span]) (edits ++ [edit]) T' := by
  rw [hspan] at hspans
  obtain ⟨n, y, hfound, hswitch, hy, hykind, hycs, hmore⟩ :=
    h.exists_switch ht hx hexpression hspans
  obtain ⟨hkind, hmem, hnode⟩ := of_switchExpression?_eq_some hexpression
  obtain ⟨keyword, before, after, brace, hparts⟩ := ht.exists_parts hx hexpression
  have hplaced := t.placed_top.below hx
  have hvisible := hparts.visible_expression hplaced
  have htouch : ∀ c ∈ x.children, ∀ z, Below c z → r.Touch spans z :=
    fun c hc z hz => h.touch z (hx.trans (.child hc hz))
  -- the sections get the place and the indentation that they would get in the original switch
  obtain ⟨pre, anchor, rest, pre', anchor', rest', hxs, hanchor, hpre, hys, hanchor', hpre', hshape,
    hrest'⟩ := Revision.exists_anchor?_eq hparts hycs htouch
  have hlength : pre'.length = pre.length := by
    have := congrArg List.length hpre'
    rwa [List.length_map, List.length_map] at this
  have hindex : insertionIndex T y = pre.length := by
    rw [insertionIndex, hanchor', Option.bind_some, Tree.indexInParent?_eq hy hys, hlength]
    rfl
  have hindents : indents y = indents x := Revision.indents_eq_of_touch hplaced hycs htouch
  obtain ⟨fragments, hadd, hfragments⟩ := exists_addSections_eq T y enumName members
  rw [hindex] at hadd
  rw [hindents] at hfragments
  obtain ⟨T', hT', hT'shape⟩ := Tree.exists_edit_insert_eq hy pre.length fragments
  have hsilent : r.Silent x.id :=
    (h.touch x hx).silent_of_above hplaced (.of_child hmem) hvisible hnode hspans
  have hother : ∀ id, id ≠ x.id →
      (r.insert x.id pre.length (fragments.map (·.top.shape))).Agree r id :=
    fun _ hid => Revision.agree_insert _ _ hid
  have hinsertions := Revision.insertions_insert r x.id pre.length (fragments.map (·.top.shape))
  have hreplacement : (r.insert x.id pre.length (fragments.map (·.top.shape))).replacement? x.id
      = none := hsilent.1
  have hne : fragments.map (·.top.shape) ≠ [] := by
    rw [hfragments, Ne, List.map_eq_nil_iff]
    exact hmembers
  have hedit : t.textEdit? d = some ⟨⟨anchor.full.start, anchor.full.start⟩,
      sectionsText (indents x) enumName members⟩ := by
    rw [Tree.textEdit?, hpayload, hspan]
    simp only [Tree.switchAt?_eq ht hx hexpression, Option.bind_eq_bind, Option.bind_some,
      ← anchor?_eq, hanchor]
    rfl
  refine ⟨T', r.insert x.id pre.length (fragments.map (·.top.shape)), _, ?_, hedit, ?_⟩
  · rw [← hspan] at hfound hswitch
    exact MissingCasesFix.correct_eq_ok hpayload hmembers hfound hswitch hadd hT'
  · rw [hspan]
    refine h.extend hx (.of_child hmem) hvisible hnode hspans hother ?_ ?_ ?_
    · exact .switch hkind hparts hxs hpre hreplacement hinsertions hne
        (List.mem_append_right _ List.mem_cons_self)
    · rw [Revision.textEditsAt_of_insertions_eq hreplacement hxs hinsertions hne, hfragments,
        fullTextAll_missingCases]
    · rw [hT'shape]
      refine hmore _ _ hother (fun _ hid => Revision.agree_insert _ _ hid) ?_
      exact revise_insert_eq (t.distinct_top.below hx) (T.distinct_top.below hy) hykind hsilent.1
        hxs hys hpre' hshape hrest'

/-- **One more fix.**  The fix of a diagnostic that ends before all those fixed so far begin works,
and comes to the edit that is computed from the original tree. -/
theorem exists_fix_eq (h : Amended t r spans edits T) (ht : t.top.WellFormedSwitches)
    (hd : d.Flags t) (hspans : ∀ s ∈ spans, d.span.stop ≤ s.start) {provider : FixProvider}
    (hprovider : builtinFixes.find? (·.canFix d.ruleId) = some provider) :
    ∃ T' r' edit, provider.fix T d = .ok T' ∧ t.textEdit? d = some edit ∧
      Amended t r' (spans ++ [d.span]) (edits ++ [edit]) T' := by
  cases hd with
  | @literal x token name hrule hpayload hx hkind htoken htext hspan =>
    obtain rfl : NameOfFix.provider = provider := by
      rw [hrule] at hprovider
      exact Option.some.inj hprovider
    obtain ⟨T', r', hfix, hamended⟩ :=
      h.exists_nameOf_eq hx hkind htoken htext hspan hspans hpayload
    refine ⟨T', r', _, ?_, ?_, hamended⟩
    · rw [FixProvider.fix, hrule, if_pos (by decide)]
      exact hfix
    · rw [Tree.textEdit?, hpayload]
  | @switch x expression enumName members hrule hpayload hmembers hx hexpression hspan =>
    obtain rfl : MissingCasesFix.provider = provider := by
      rw [hrule] at hprovider
      exact Option.some.inj hprovider
    obtain ⟨T', r', edit, hfix, hedit, hamended⟩ :=
      h.exists_missingCases_eq ht hx hexpression hspan hspans hpayload hmembers
    refine ⟨T', r', edit, ?_, hedit, hamended⟩
    rw [FixProvider.fix, hrule, if_pos (by decide)]
    exact hfix

end Amended

end TreeLint
