/-
TreeLint/Proofs/Fix/Switches.lean

Switch statements as their fix reads them.

A switch statement has a keyword, the expression that it branches on, any
number of sections and a closing brace, in this order and with further tokens
between them (`Element.SwitchParts`).  The keyword is what tells a switch from
its expression: it comes first and is not empty, so no switch starts where its
expression starts, and no two switches branch on expressions at the same place
(`Tree.switchAt?_eq`).

New sections come before a child that stands behind the expression and not
behind the closing brace (`SwitchParts.mem_of_children_eq`).
-/
import TreeLint.Fix.MissingCases
import TreeLint.Proofs.Tree.Lookup

namespace TreeLint

namespace Element

/-! ### Parts of a switch -/

/-- The element is made up like a switch statement of the given parts. -/
structure SwitchParts (switch keyword : Element) (before : List Element) (expression : Element)
    (after : List Element) (brace : Element) : Prop where
  children_eq : switch.children = keyword :: (before ++ expression :: (after ++ [brace]))
  keyword_isToken : keyword.isToken = true
  keyword_kind : keyword.kind = .switchKeyword
  keyword_text : keyword.text ≠ ""
  before_isToken : ∀ c ∈ before, c.isToken = true
  expression_isToken : expression.isToken = false
  expression_kind : expression.kind ≠ .switchSection
  expression_text : expression.text ≠ ""
  after_section : ∀ c ∈ after, c.isToken = true ∨ c.kind = .switchSection
  brace_isToken : brace.isToken = true
  brace_kind : brace.kind = .closeBraceToken
  brace_text : brace.text ≠ ""
  one_brace : ∀ c ∈ before ++ expression :: after, c.kind ≠ .closeBraceToken

/-- The element is made up like a switch statement. -/
def WellFormedSwitch (e : Element) : Prop :=
  ∃ keyword before expression after brace, SwitchParts e keyword before expression after brace

/-- All switch statements at or below the element are made up as they should be. -/
def WellFormedSwitches (e : Element) : Prop :=
  ∀ x, Below e x → x.kind = .switchStatement → x.isToken = false → x.WellFormedSwitch

/-- What the element begins with is a token that is not empty. -/
def StartsWithToken (e : Element) : Prop :=
  ∃ first rest, e.children = first :: rest ∧ first.isToken = true ∧ first.text ≠ ""

/-- No child node starts where an element starts that begins with a token. -/
theorem StartsWithToken.span_start_lt {e c : Element} (h : e.StartsWithToken) (he : e.Placed)
    (hc : c ∈ e.children) (hnode : c.isToken = false) : e.span.start < c.span.start := by
  obtain ⟨first, rest, hcs, htoken, htext⟩ := h
  have hfirst : first ∈ e.children := hcs ▸ List.mem_cons_self
  have hplaced := he.child hfirst
  have hvisible := hplaced.visible_iff.mpr htext
  have hmem : c ∈ rest := by
    rw [hcs] at hc
    rcases List.mem_cons.mp hc with rfl | hc
    · rw [htoken] at hnode
      cases hnode
    · exact hc
  obtain ⟨between, after, hrest⟩ := List.append_of_mem hmem
  have hcs' : e.children = (first :: between) ++ c :: after := by
    rw [hcs, hrest, List.cons_append]
  have hstop := he.stop_le_start hcs' List.mem_cons_self
  have hstart := he.span_start_le (.of_child hfirst) hvisible
  have hle := (he.child hc).full_start_le_span_start
  rw [Visible, hplaced.span_stop] at hvisible
  omega

/-- The first node that is not a section is what a switch branches on. -/
theorem switchExpression?_of_children_eq {switch expression : Element} {pre post : List Element}
    (hkind : switch.kind = .switchStatement) (hcs : switch.children = pre ++ expression :: post)
    (hpre : ∀ c ∈ pre, c.isToken = true) (hnode : expression.isToken = false)
    (hexpression : expression.kind ≠ .switchSection) : switch.switchExpression? = some expression := by
  have hnone : pre.filter (!·.isToken) = [] := by
    rw [List.filter_eq_nil_iff]
    intro c hc
    rw [hpre c hc]
    exact Bool.false_ne_true
  have hnodes : switch.childNodes = expression :: post.filter (!·.isToken) := by
    rw [childNodes, hcs, List.filter_append, hnone, List.nil_append,
      List.filter_cons_of_pos (by rw [hnode]; rfl)]
  rw [switchExpression?, if_pos hkind, hnodes, List.find?_cons_of_pos]
  rw [bne_iff_ne]
  exact hexpression

open MissingCasesFix

/-- Whether a child of a switch is a section with a default label. -/
def isDefaultSection (c : Element) : Bool :=
  (c.kind == .switchSection && !c.isToken) && isDefault c

theorem anchor?_eq (switch : Element) :
    anchor? switch = (switch.children.find? isDefaultSection
      <|> switch.children.find? (·.kind == .closeBraceToken)) := by
  have hsections : (sections switch).find? isDefault = switch.children.find? isDefaultSection := by
    rw [sections, childNodes, List.filter_filter, List.find?_filter]
    congr 1
    funext c
    rw [isDefaultSection, Bool.decide_and, Bool.decide_eq_true, Bool.decide_eq_true]
  rw [anchor?, hsections]
  rfl

namespace SwitchParts

variable {switch keyword expression brace : Element} {before after : List Element}

theorem startsWithToken (h : SwitchParts switch keyword before expression after brace) :
    switch.StartsWithToken :=
  ⟨keyword, _, h.children_eq, h.keyword_isToken, h.keyword_text⟩

theorem expression_mem (h : SwitchParts switch keyword before expression after brace) :
    expression ∈ switch.children := by
  rw [h.children_eq]
  simp

theorem isToken_eq (h : SwitchParts switch keyword before expression after brace) :
    switch.isToken = false :=
  isToken_of_mem_children h.expression_mem

theorem visible_expression (h : SwitchParts switch keyword before expression after brace)
    (hplaced : switch.Placed) : expression.Visible :=
  (hplaced.child h.expression_mem).visible_iff.mpr h.expression_text

theorem children_eq_front (h : SwitchParts switch keyword before expression after brace) :
    switch.children = (keyword :: before) ++ expression :: (after ++ [brace]) := by
  rw [h.children_eq, List.cons_append]

/-- Only tokens stand before the expression. -/
theorem isToken_of_mem_front (h : SwitchParts switch keyword before expression after brace)
    {c : Element} (hc : c ∈ keyword :: before) : c.isToken = true := by
  rcases List.mem_cons.mp hc with rfl | hc
  · exact h.keyword_isToken
  · exact h.before_isToken c hc

/-- The expression is the one that the switch is said to branch on. -/
theorem switchExpression?_eq (h : SwitchParts switch keyword before expression after brace)
    (hkind : switch.kind = .switchStatement) : switch.switchExpression? = some expression :=
  switchExpression?_of_children_eq hkind h.children_eq_front
    (fun _ hc => h.isToken_of_mem_front hc) h.expression_isToken h.expression_kind

theorem children_eq_append (h : SwitchParts switch keyword before expression after brace)
    {between rest : List Element} {anchor : Element}
    (hsplit : after ++ [brace] = between ++ anchor :: rest) :
    switch.children = (keyword :: (before ++ expression :: between)) ++ anchor :: rest := by
  rw [h.children_eq, hsplit]
  simp

/-- A node in a switch lies in the expression or stands behind it. -/
theorem below_expression_or (h : SwitchParts switch keyword before expression after brace)
    (hplaced : switch.Placed) {c m : Element} (hc : c ∈ switch.children) (hm : Below c m)
    (hnode : m.isToken = false) :
    Below expression m ∨ expression.full.stop ≤ m.full.start := by
  have htoken : c.isToken ≠ true := by
    intro htoken
    rw [hm.eq_of_isToken htoken, htoken] at hnode
    cases hnode
  have hbehind : ∀ d ∈ after ++ [brace], d = c → expression.full.stop ≤ m.full.start := by
    rintro d hd rfl
    obtain ⟨between, rest, hrest⟩ := List.append_of_mem hd
    have hstop := hplaced.stop_le_start (h.children_eq_append hrest)
      (List.mem_cons_of_mem _ (List.mem_append_right _ List.mem_cons_self))
    exact Nat.le_trans hstop ((hplaced.child hc).full_below hm).1
  rw [h.children_eq] at hc
  rcases List.mem_cons.mp hc with rfl | hc
  · exact absurd h.keyword_isToken htoken
  · rcases List.mem_append.mp hc with hc | hc
    · exact absurd (h.before_isToken c hc) htoken
    · rcases List.mem_cons.mp hc with rfl | hc
      · exact .inl hm
      · exact .inr (hbehind c hc rfl)

/-! ### Where sections go -/

theorem find?_closeBrace (h : SwitchParts switch keyword before expression after brace) :
    switch.children.find? (·.kind == .closeBraceToken) = some brace := by
  have hothers : ∀ c ∈ keyword :: (before ++ expression :: after),
      ¬ (c.kind == .closeBraceToken) = true := by
    intro c hc
    rw [beq_iff_eq]
    rcases List.mem_cons.mp hc with rfl | hc
    · rw [h.keyword_kind]
      decide
    · exact h.one_brace c hc
  have hcs : switch.children = (keyword :: (before ++ expression :: after)) ++ [brace] := by
    rw [h.children_eq]
    simp
  rw [hcs, List.find?_append, List.find?_eq_none.mpr hothers, Option.none_or,
    List.find?_cons_of_pos]
  rw [h.brace_kind]
  rfl

/-- A default section or a closing brace stands behind the expression. -/
theorem mem_of_children_eq (h : SwitchParts switch keyword before expression after brace)
    {pre rest : List Element} {c : Element} (hcs : switch.children = pre ++ c :: rest)
    (hc : isDefaultSection c = true ∨ c.kind = .closeBraceToken) : expression ∈ pre := by
  -- the child is neither the expression nor before it
  have hfront : c ∉ keyword :: (before ++ [expression]) := by
    intro hmem
    rcases hc with hc | hc
    · rw [isDefaultSection, Bool.and_eq_true, Bool.and_eq_true, beq_iff_eq,
        Bool.not_eq_true'] at hc
      obtain ⟨⟨hkind, hnode⟩, -⟩ := hc
      rcases List.mem_cons.mp hmem with rfl | hmem
      · rw [h.keyword_isToken] at hnode
        cases hnode
      · rcases List.mem_append.mp hmem with hmem | hmem
        · rw [h.before_isToken c hmem] at hnode
          cases hnode
        · rw [List.mem_singleton.mp hmem] at hkind
          exact h.expression_kind hkind
    · rcases List.mem_cons.mp hmem with rfl | hmem
      · rw [h.keyword_kind] at hc
        cases hc
      · rcases List.mem_append.mp hmem with hmem | hmem
        · exact h.one_brace c (List.mem_append_left _ hmem) hc
        · rw [List.mem_singleton.mp hmem] at hc
          exact h.one_brace expression (List.mem_append_right _ List.mem_cons_self) hc
  have hsplit : (keyword :: (before ++ [expression])) ++ (after ++ [brace]) = pre ++ c :: rest := by
    rw [← hcs, h.children_eq]
    simp
  rcases List.append_eq_append_iff.mp hsplit with ⟨between, hpre, -⟩ | ⟨between, hpre, hrest⟩
  · rw [hpre]
    simp
  · cases between with
    | nil =>
      rw [List.append_nil] at hpre
      rw [← hpre]
      simp
    | cons d between =>
      obtain rfl : c = d := (List.cons.inj hrest).1
      exact absurd (hpre ▸ List.mem_append_right _ List.mem_cons_self) hfront

/-- What comes before a child behind the expression comes strictly inside the switch. -/
theorem inside_of_children_eq (h : SwitchParts switch keyword before expression after brace)
    (hplaced : switch.Placed) {pre rest : List Element} {c : Element}
    (hcs : switch.children = pre ++ c :: rest) (hmem : expression ∈ pre) :
    switch.full.start < c.full.start ∧ c.full.start < switch.full.stop := by
  constructor
  · have hexpression := hplaced.child h.expression_mem
    have hvisible := h.visible_expression hplaced
    have hstart := (hplaced.full_below (.of_child h.expression_mem)).1
    have hle := hexpression.full_start_le_span_start
    have hstop := hplaced.stop_le_start hcs hmem
    rw [Visible, hexpression.span_stop] at hvisible
    omega
  · -- the closing brace is not empty, and it is the child itself or stands behind it
    have hbrace : brace ∈ c :: rest := by
      have hlast : switch.children.getLast? = some brace := by
        rw [h.children_eq, ← List.cons_append, ← List.cons_append, ← List.append_assoc,
          List.getLast?_concat]
      rw [hcs, List.getLast?_append_of_ne_nil _ (List.cons_ne_nil _ _)] at hlast
      exact List.mem_of_getLast? hlast
    have hbrace' : brace ∈ switch.children := hcs ▸ List.mem_append_right _ hbrace
    have hstop := (hplaced.full_below (.of_child hbrace')).2
    have hvisible := (hplaced.child hbrace').visible_iff.mpr h.brace_text
    have hle := (hplaced.child hbrace').full_start_le_span_start
    rw [Visible, (hplaced.child hbrace').span_stop] at hvisible
    rcases List.mem_cons.mp hbrace with rfl | hbrace
    · omega
    · obtain ⟨between, rest', rfl⟩ := List.append_of_mem hbrace
      have hcs' : switch.children = (pre ++ c :: between) ++ brace :: rest' := by
        rw [hcs]
        simp
      have hc : c ∈ switch.children := hcs ▸ List.mem_append_right _ List.mem_cons_self
      have hc' := (hplaced.child hc).full_start_le_stop
      have hbehind := hplaced.stop_le_start hcs' (List.mem_append_right _ List.mem_cons_self)
      omega

end SwitchParts

end Element

/-! ### Finding a switch by its expression -/

namespace Element

variable {e switch keyword expression brace switch' keyword' expression' brace' : Element}
variable {before after before' after' : List Element}

theorem of_switchExpression?_eq_some (h : e.switchExpression? = some expression) :
    e.kind = .switchStatement ∧ expression ∈ e.children ∧ expression.isToken = false := by
  rw [switchExpression?] at h
  split at h
  · rename_i hkind
    obtain ⟨hmem, hnode⟩ := List.mem_filter.mp (List.mem_of_find?_eq_some h)
    rw [Bool.not_eq_true'] at hnode
    exact ⟨hkind, hmem, hnode⟩
  · cases h

theorem WellFormedSwitch.startsWithToken (h : e.WellFormedSwitch) : e.StartsWithToken := by
  obtain ⟨_, _, _, _, _, hparts⟩ := h
  exact SwitchParts.startsWithToken hparts

/-- A switch that branches on an expression is made up around it. -/
theorem WellFormedSwitches.exists_parts (h : e.WellFormedSwitches) (hswitch : Below e switch)
    (hexpression : switch.switchExpression? = some expression) :
    ∃ keyword before after brace, SwitchParts switch keyword before expression after brace := by
  obtain ⟨hkind, hmem, -⟩ := of_switchExpression?_eq_some hexpression
  obtain ⟨keyword, before, expression', after, brace, hparts⟩ :=
    h switch hswitch hkind (isToken_of_mem_children hmem)
  obtain rfl : expression' = expression :=
    Option.some.inj ((hparts.switchExpression?_eq hkind).symm.trans hexpression)
  exact ⟨keyword, before, after, brace, hparts⟩

/-- A switch in another one does not branch on an expression at the same place. -/
theorem SwitchParts.eq_of_below (h : SwitchParts switch keyword before expression after brace)
    (h' : SwitchParts switch' keyword' before' expression' after' brace')
    (hplaced : switch.Placed) (hbelow : Below switch switch')
    (hspan : expression'.span = expression.span) : switch' = switch := by
  have hplaced' := hplaced.below hbelow
  have hexpression := hplaced.child h.expression_mem
  have hvisible := h.visible_expression hplaced
  have hvisible' := h'.visible_expression hplaced'
  have hstart := h'.startsWithToken.span_start_lt hplaced' h'.expression_mem h'.expression_isToken
  cases hbelow with
  | refl => rfl
  | @child _ c _ hc hbelow =>
    exfalso
    have hnode := h'.isToken_eq
    rcases h.below_expression_or hplaced hc hbelow hnode with hin | hbehind
    · have hv := hplaced'.visible_of_below (.of_child h'.expression_mem) hvisible'
      have hle := hexpression.span_start_le hin hv
      rw [hspan] at hstart
      omega
    · have hle := (hplaced'.full_below (.of_child h'.expression_mem)).1
      have hle' := (hplaced'.child h'.expression_mem).full_start_le_span_start
      rw [hspan] at hle'
      rw [Visible, hexpression.span_stop] at hvisible
      omega

/-- Two switches that branch on expressions at the same place are one. -/
theorem SwitchParts.eq_of_span_eq (h : SwitchParts switch keyword before expression after brace)
    (h' : SwitchParts switch' keyword' before' expression' after' brace') (he : e.Placed)
    (hswitch : Below e switch) (hswitch' : Below e switch')
    (hspan : expression'.span = expression.span) : switch' = switch := by
  have hplaced := he.below hswitch
  have hplaced' := he.below hswitch'
  have hexpression := hplaced.child h.expression_mem
  have hexpression' := hplaced'.child h'.expression_mem
  have hin := hplaced.full_below (.of_child h.expression_mem)
  have hin' := hplaced'.full_below (.of_child h'.expression_mem)
  have hvisible := h.visible_expression hplaced
  have hle := hexpression.full_start_le_span_start
  have hle' := hexpression'.full_start_le_span_start
  have hstop := hexpression'.span_stop
  rw [hspan] at hle' hstop
  rw [Visible, hstop] at hvisible
  have hstop' := hexpression.span_stop
  rcases he.below_or_below hswitch hswitch' (by omega) (by omega) with hbelow | hbelow
  · exact h.eq_of_below h' hplaced hbelow hspan
  · exact (h'.eq_of_below h hplaced' hbelow hspan.symm).symm

end Element

namespace Tree

open Element

/-- The switch that branches on the expression at a span. -/
def switchAt? (t : Tree) (span : Span) : Option Element :=
  t.top.preorder.find? fun x => x.switchExpression?.any (·.span == span)

/-- A switch is found by the place of its expression. -/
theorem switchAt?_eq {t : Tree} (ht : t.top.WellFormedSwitches) {switch expression : Element}
    (hswitch : Below t.top switch) (h : switch.switchExpression? = some expression) :
    t.switchAt? expression.span = some switch := by
  obtain ⟨_, _, _, _, hparts⟩ := ht.exists_parts hswitch h
  rcases hfind : t.switchAt? expression.span with - | found
  · have hnone := List.find?_eq_none.mp hfind switch (mem_preorder_iff.mpr hswitch)
    rw [h] at hnone
    simp at hnone
  · have hfound := mem_preorder_iff.mp (List.mem_of_find?_eq_some hfind)
    rw [switchAt?] at hfind
    have hany := List.find?_some hfind
    obtain ⟨other, hother, hspan⟩ := (Option.any_eq_true _ _).mp hany
    obtain ⟨_, _, _, _, hparts'⟩ := ht.exists_parts hfound hother
    rw [hparts.eq_of_span_eq hparts' t.placed_top hswitch hfound (beq_iff_eq.mp hspan)]

end Tree

end TreeLint
