/-
TreeLint/Proofs/Fix/MissingCases.lean

The fix of a switch closes its diagnostic and disturbs no other.

What is reported on a switch comes from the type of the expression it branches
on and from the symbols that its labels name (`SwitchEnum.findings`).  In the
fixed tree everything but the new sections is copied.  If a host binds the
copies as it has bound the originals, a switch whose copy has the copies of its
children has the same type and the same labels, and the same is reported on it.

The fixed switch has the copies of its labels and the new ones beside them.  A
member that was missing is named by a new label, and nothing is missing any
more; if a new label cannot be resolved, nothing is reported at all.  Since no
two elements of a tree have the same number, a host is free to bind the copies
and the new labels like this (`exists_bindings`).

To be found again, a switch has to begin with a token that is not empty, and to
branch on an expression that is not empty (`Element.GovernedSwitches`).
-/
import TreeLint.Proofs.Analysis.Builtin
import TreeLint.Proofs.Tree.Copies
import Mathlib.Data.List.Flatten

namespace TreeLint

open Element

/-- Every switch statement begins with a token that is not empty and branches on an expression that
is not empty. -/
def Element.GovernedSwitches (e : Element) : Prop :=
  ∀ x, Below e x → x.kind = .switchStatement → x.isToken = false →
    x.StartsWithToken ∧ ∃ g, x.switchExpression? = some g ∧ g.text ≠ ""

instance (e : Element) : Decidable e.GovernedSwitches :=
  decidable_of_iff (∀ x ∈ e.preorder, x.kind = .switchStatement → x.isToken = false →
      x.children.head?.any (fun c => c.isToken && c.text != "") = true ∧
        x.switchExpression?.any (·.text != "") = true) <| by
    simp only [GovernedSwitches, StartsWithToken, mem_preorder_iff, Option.any_eq_true,
      List.head?_eq_some_iff, Bool.and_eq_true, bne_iff_ne]
    refine forall₄_congr fun x _ _ _ => and_congr ?_ Iff.rfl
    constructor
    · rintro ⟨first, ⟨rest, hcs⟩, hfirst⟩
      exact ⟨first, rest, hcs, hfirst⟩
    · rintro ⟨first, rest, hcs, hfirst⟩
      exact ⟨first, ⟨rest, hcs⟩, hfirst⟩

/-! ### What is reported on a switch -/

namespace SwitchEnum

variable {symbols : SymbolTable} {m : Symbol} {enum : SymbolId} {covered covered' : List SymbolKey}

/-- The declared members of an enum that none of the keys denotes. -/
def missingSymbols (symbols : SymbolTable) (enum : SymbolId) (covered : List SymbolKey) :
    List Symbol :=
  (symbols.members enum).filter fun m =>
    !m.implicitlyDeclared && !(symbols.key? m.id).any covered.contains

theorem missingMembers_eq (symbols : SymbolTable) (enum : SymbolId) (covered : List SymbolKey) :
    missingMembers symbols enum covered = (missingSymbols symbols enum covered).map (·.name) := rfl

/-- What is reported on a switch, from the type it is over and the keys of its labels. -/
def findings (symbols : SymbolTable) (type? : Option Symbol) (keys? : Option (List SymbolKey)) :
    List Payload :=
  match type?, keys? with
  | some enum, some covered =>
    if enum.isEnum && !(missingMembers symbols enum.id covered).isEmpty then
      [.missingEnumCases enum.name (missingMembers symbols enum.id covered)]
    else []
  | _, _ => []

/-- The switches of a tree, in document order. -/
def switches (t : Tree) : List Element := t.top.preorder.filter (·.kind == .switchStatement)

/-- A run reports what there is on each switch. -/
theorem reports_eq (u : AnalysisUnit) :
    analyzer.reports u = (switches u.tree).flatMap fun x => check ⟨u, x, false⟩ :=
  Analyzer.reports_eq rfl rfl rfl u

theorem map_payload_check (ctx : NodeContext) :
    (check ctx).map (·.payload) = findings ctx.unit.symbols
      (ctx.node.switchExpression?.bind fun g => ctx.unit.model.type? g.id)
      ((caseLabels ctx.node).mapM (labelKey? ctx.unit.model)) := by
  have hsymbols : ctx.unit.model.symbols = ctx.unit.symbols := rfl
  simp only [check, hsymbols]
  rcases ctx.node.switchExpression? with - | g
  · rfl
  · simp only [Option.bind_some]
    rcases ctx.unit.model.type? g.id with - | enum
    · rfl
    · rcases (caseLabels ctx.node).mapM (labelKey? ctx.unit.model) with - | covered
      · simp [findings]
      · simp only [findings]
        rcases enum.isEnum with - | -
        · rfl
        · rcases (missingMembers ctx.unit.symbols enum.id covered).isEmpty with - | -
          · rfl
          · rfl

/-- If all that was missing is covered now, and what was covered still is, nothing is missing. -/
theorem missingMembers_eq_nil (hcovered : ∀ k ∈ covered, k ∈ covered')
    (hmissing : ∀ m ∈ missingSymbols symbols enum covered,
      ∃ k ∈ covered', symbols.key? m.id = some k) :
    missingMembers symbols enum covered' = [] := by
  rw [missingMembers_eq, List.map_eq_nil_iff, missingSymbols, List.filter_eq_nil_iff]
  intro m hm hmissing'
  rw [Bool.and_eq_true, Bool.not_eq_true' ((symbols.key? m.id).any _)] at hmissing'
  obtain ⟨hdeclared, hany'⟩ := hmissing'
  rcases hany : (symbols.key? m.id).any covered.contains with - | -
  · have hmem : m ∈ missingSymbols symbols enum covered :=
      List.mem_filter.mpr ⟨hm, by rw [hdeclared, hany]; rfl⟩
    obtain ⟨k, hk, hkey⟩ := hmissing m hmem
    rw [hkey, Option.any_some, List.contains_iff_mem.mpr hk] at hany'
    cases hany'
  · obtain ⟨k, hkey, hk⟩ := (Option.any_eq_true _ _).mp hany
    rw [hkey, Option.any_some,
      List.contains_iff_mem.mpr (hcovered k (List.contains_iff_mem.mp hk))] at hany'
    cases hany'

end SwitchEnum

/-! ### Reading copies -/

/-- The copies of nodes are bound as their originals are. -/
structure Bindings.CarriedOver (b b' : Bindings) (pairs : List (Element × Element)) : Prop where
  declared : ∀ p ∈ pairs, p.1.isToken = false →
    b'.declared.get? p.2.id = b.declared.get? p.1.id
  referenced : ∀ p ∈ pairs, p.1.isToken = false →
    b'.referenced.get? p.2.id = b.referenced.get? p.1.id
  types : ∀ p ∈ pairs, p.1.isToken = false →
    b'.types.get? p.2.id = b.types.get? p.1.id

/-- The unit `u'` has the tree of `u` with sections added to a switch, and binds the copies as `u`
binds the originals. -/
structure MissingCasesFix.Extends (new : List Element) (x x' : Element)
    (u u' : AnalysisUnit) : Prop where
  splice : Tree.Splice [] new x x' u.tree u'.tree
  kind_eq : x.kind = .switchStatement
  sections : ∀ s ∈ new, s.isToken = false ∧ s.kind = .switchSection
  no_switch : ∀ s ∈ new, ∀ z, Below s z → z.kind ≠ .switchStatement
  symbols_eq : u'.symbols = u.symbols
  bindings : u.source.bindings.CarriedOver u'.source.bindings (copies [] new u.tree.top u'.tree.top)

namespace MissingCasesFix.Extends

open SwitchEnum

variable {new : List Element} {x x' a b : Element} {u u' : AnalysisUnit}
variable (h : Extends new x x' u u')
include h

theorem ne_of_kind {k : Kind} (ha : a.kind = k) (hk : k ≠ .switchStatement) : a ≠ x := by
  rintro rfl
  exact hk (ha.symm.trans h.kind_eq)

section Copy

variable (hab : (a, b) ∈ copies [] new u.tree.top u'.tree.top)
include hab

theorem kind_eq_of_mem : b.kind = a.kind :=
  (h.splice.kept_of_mem_copies hab).kind_eq h.splice.spliced

theorem isToken_eq_of_mem : b.isToken = a.isToken :=
  (h.splice.kept_of_mem_copies hab).isToken_eq h.splice.spliced

theorem type?_eq (ha : a.isToken = false) : u'.model.type? b.id = u.model.type? a.id := by
  show (u'.source.bindings.types.get? b.id).bind u'.symbols.get? = _
  rw [h.bindings.types (a, b) hab ha, h.symbols_eq]
  rfl

theorem referenced?_eq (ha : a.isToken = false) :
    u'.model.referenced? b.id = u.model.referenced? a.id := by
  show (u'.source.bindings.referenced.get? b.id).bind u'.symbols.get? = _
  rw [h.bindings.referenced (a, b) hab ha, h.symbols_eq]
  rfl

theorem labelKey?_eq (ha : a.kind = .caseSwitchLabel) :
    labelKey? u'.model b = labelKey? u.model a := by
  have hcs := h.splice.forall₂_childNodes_of_ne hab (h.ne_of_kind ha (by decide))
  refine bind_eq_of_rel (rel_head? hcs) fun c hc d hcd => ?_
  have hnode : c.isToken = false := by
    simpa using (List.mem_filter.mp (List.mem_of_mem_head? hc)).2
  show (u'.model.referenced? d.id).bind (fun s => u'.symbols.key? s.id) = _
  rw [h.referenced?_eq hcd hnode, h.symbols_eq]
  rfl

/-- New sections are no expressions, so a switch and its copy branch on the same one. -/
theorem rel_switchExpression? :
    Option.Rel (fun c d => (c, d) ∈ copies [] new u.tree.top u'.tree.top) a.switchExpression?
      b.switchExpression? := by
  rw [switchExpression?, switchExpression?, h.kind_eq_of_mem hab]
  split
  · rw [← List.head?_filter, ← List.head?_filter, childNodes, childNodes, List.filter_filter,
      List.filter_filter]
    have hcs := h.splice.forall₂_children hab
    rw [List.filter_eq_self.mpr fun c _ => isOutside_nil c] at hcs
    have hskip : b.children.filter (fun c => c.kind != .switchSection && !c.isToken)
        = (b.children.filter (isOutside new)).filter
          (fun c => c.kind != .switchSection && !c.isToken) := by
      rw [List.filter_filter]
      refine List.filter_congr fun c hc => ?_
      rcases (h.splice.spliced.tracks.right (h.splice.kept_of_mem_copies hab)).2 c hc with hc | hc
      · rw [hc, Bool.and_true]
      · rw [(h.sections c hc).2]
        rfl
    rw [hskip]
    refine rel_head? (forall₂_filter hcs fun c d hcd => ?_)
    rw [h.kind_eq_of_mem hcd, h.isToken_eq_of_mem hcd]
  · exact .none

theorem type?_switchExpression?_eq :
    (b.switchExpression?.bind fun g => u'.model.type? g.id)
      = a.switchExpression?.bind fun g => u.model.type? g.id :=
  bind_eq_of_rel (h.rel_switchExpression? hab) fun _ hexpression _ hcd =>
    h.type?_eq hcd (of_switchExpression?_eq_some hexpression).2.2

theorem forall₂_caseLabels (ha : a ≠ x) :
    List.Forall₂ (fun c d => (c, d) ∈ copies [] new u.tree.top u'.tree.top) (caseLabels a)
      (caseLabels b) := by
  have hkind : ∀ (k : Kind) (c d : Element), (c, d) ∈ copies [] new u.tree.top u'.tree.top →
      (d.kind == k) = (c.kind == k) := fun k c d hcd => by rw [h.kind_eq_of_mem hcd]
  refine forall₂_filter (forall₂_flatMap
    (forall₂_filter (h.splice.forall₂_childNodes_of_ne hab ha) (hkind _)) ?_) (hkind _)
  intro s hs s' hss'
  have hsection : s.kind = .switchSection := beq_iff_eq.mp (List.mem_filter.mp hs).2
  exact h.splice.forall₂_childNodes_of_ne hss' (h.ne_of_kind hsection (by decide))

/-- On the copy of another switch, the same is reported as on the switch. -/
theorem map_payload_check_eq (ha : a ≠ x) :
    (check ⟨u', b, false⟩).map (·.payload) = (check ⟨u, a, false⟩).map (·.payload) := by
  have hkeys : (caseLabels b).mapM (labelKey? u'.model) = (caseLabels a).mapM (labelKey? u.model) :=
    mapM_eq_of_forall₂ (h.forall₂_caseLabels hab ha) fun c hc d hcd =>
      h.labelKey?_eq hcd (beq_iff_eq.mp (List.mem_filter.mp hc).2)
  rw [map_payload_check, map_payload_check]
  simp only [h.type?_switchExpression?_eq hab, hkeys, h.symbols_eq]

end Copy

/-- The switches after the fix are the copies of those before. -/
theorem forall₂_switches :
    List.Forall₂ (fun a b => (a, b) ∈ copies [] new u.tree.top u'.tree.top) (switches u.tree)
      (switches u'.tree) := by
  have hafter : (u'.tree.top.outside new).filter (·.kind == .switchStatement) = switches u'.tree :=
    h.splice.filter_outside fun s hs z hz => beq_eq_false_iff_ne.mpr (h.no_switch s hs z hz)
  rw [← hafter, switches, ← outside_nil]
  exact forall₂_filter h.splice.forall₂_copies fun a b hab => by rw [h.kind_eq_of_mem hab]

end MissingCasesFix.Extends

/-! ### The fixed switch -/

namespace SwitchEnum

variable {e l value : Element} {model : Model} {m : Symbol}

/-- A value refers to a symbol that has the key of the member. -/
def Denotes (model : Model) (value : Element) (m : Symbol) : Prop :=
  ∃ s, model.referenced? value.id = some s ∧ model.symbols.key? s.id = model.symbols.key? m.id

/-- A value that is bound to a member denotes it. -/
theorem Denotes.of_get? (hm : m ∈ model.symbols.symbols.toList)
    (h : model.bindings.referenced.get? value.id = some m.id) : Denotes model value m := by
  refine ⟨m, ?_, rfl⟩
  rw [Model.referenced?, h]
  exact SymbolTable.get?_of_mem hm

theorem forall₂_denotes {values : List Element} {members : List Symbol}
    (hmembers : ∀ m ∈ members, m ∈ model.symbols.symbols.toList)
    (h : List.Forall₂ (fun value m => model.bindings.referenced.get? value.id = some m.id) values
      members) : List.Forall₂ (Denotes model) values members :=
  List.forall₂_iff_zip.mpr ⟨h.length_eq, fun hp =>
    .of_get? (hmembers _ (List.of_mem_zip hp).2) (List.forall₂_zip h hp)⟩

theorem mem_caseLabels_iff : l ∈ caseLabels e ↔
    ∃ s ∈ e.children, s.isToken = false ∧ s.kind = .switchSection ∧
      l ∈ s.children ∧ l.isToken = false ∧ l.kind = .caseSwitchLabel := by
  simp only [caseLabels, childNodes, List.mem_filter, List.mem_flatMap, Bool.not_eq_true',
    beq_iff_eq]
  constructor
  · rintro ⟨⟨s, ⟨⟨hs, hnode⟩, hkind⟩, hl, hlnode⟩, hlkind⟩
    exact ⟨s, hs, hnode, hkind, hl, hlnode, hlkind⟩
  · rintro ⟨s, hs, hnode, hkind, hl, hlnode, hlkind⟩
    exact ⟨⟨s, ⟨⟨hs, hnode⟩, hkind⟩, hl, hlnode⟩, hlkind⟩

/-- The values of the case labels of some sections. -/
def labelValues (sections : List Element) : List Element :=
  ((sections.flatMap childNodes).filter (·.kind == .caseSwitchLabel)).filterMap
    (·.childNodes.head?)

end SwitchEnum

/-- What is reported after a fix of `x`: nothing on the fixed switch, on every other switch what was
reported before. -/
structure MissingCasesFix.Undisturbed (new : List Element) (x x' : Element)
    (u u' : AnalysisUnit) : Prop where
  reports_eq : SwitchEnum.analyzer.reports u'
    = (SwitchEnum.switches u'.tree).flatMap fun b => SwitchEnum.check ⟨u', b, false⟩
  check_eq_nil : SwitchEnum.check ⟨u', x', false⟩ = []
  others : List.Forall₂ (fun a b => (a, b) ∈ copies [] new u.tree.top u'.tree.top ∧
      (a = x → b = x') ∧
      (a ≠ x → (SwitchEnum.check ⟨u', b, false⟩).map (·.payload)
        = (SwitchEnum.check ⟨u, a, false⟩).map (·.payload)))
    (SwitchEnum.switches u.tree) (SwitchEnum.switches u'.tree)

namespace MissingCasesFix.Extends

open SwitchEnum

variable {new : List Element} {x x' a b : Element} {u u' : AnalysisUnit}
variable (h : Extends new x x' u u')
include h

/-- The fixed switch has the labels it had. -/
theorem exists_caseLabel {l : Element} (hl : l ∈ caseLabels x) :
    ∃ l' ∈ caseLabels x', labelKey? u'.model l' = labelKey? u.model l := by
  obtain ⟨s, hs, hnode, hkind, hl, hlnode, hlkind⟩ := mem_caseLabels_iff.mp hl
  obtain ⟨s', hs', hss'⟩ := exists_of_mem_of_forall₂ (h.splice.forall₂_children h.splice.mem_copies)
    (List.mem_filter.mpr ⟨hs, isOutside_nil s⟩)
  obtain ⟨l', hl', hll'⟩ := exists_of_mem_of_forall₂
    (h.splice.forall₂_children_of_ne hss' (h.ne_of_kind hkind (by decide))) hl
  refine ⟨l', mem_caseLabels_iff.mpr ⟨s', (List.mem_filter.mp hs').1, ?_, ?_, hl', ?_, ?_⟩,
    h.labelKey?_eq hll' hlkind⟩
  · exact (h.isToken_eq_of_mem hss').trans hnode
  · exact (h.kind_eq_of_mem hss').trans hkind
  · exact (h.isToken_eq_of_mem hll').trans hlnode
  · exact (h.kind_eq_of_mem hll').trans hlkind

/-- The fixed switch has the new labels. -/
theorem exists_caseLabel_of_mem {value : Element} (hvalue : value ∈ labelValues new) :
    ∃ l ∈ caseLabels x', l.childNodes.head? = some value := by
  obtain ⟨l, hl, hhead⟩ := List.mem_filterMap.mp hvalue
  obtain ⟨hl, hlkind⟩ := List.mem_filter.mp hl
  obtain ⟨s, hs, hl⟩ := List.mem_flatMap.mp hl
  obtain ⟨hl, hlnode⟩ := List.mem_filter.mp hl
  obtain ⟨hnode, hkind⟩ := h.sections s hs
  rw [Bool.not_eq_true'] at hlnode
  exact ⟨l, mem_caseLabels_iff.mpr ⟨s, h.splice.spliced.mem_children_right hs, hnode, hkind, hl,
    hlnode, beq_iff_eq.mp hlkind⟩, hhead⟩

/-- If the new labels denote the members that were missing, nothing is reported on the fixed
switch. -/
theorem check_eq_nil {g : Element} {enum : Symbol} {covered : List SymbolKey}
    (hexpression : x.switchExpression? = some g) (htype : u.model.type? g.id = some enum)
    (hcovered : (caseLabels x).mapM (labelKey? u.model) = some covered)
    (hvalues : List.Forall₂ (Denotes u'.model) (labelValues new)
      (missingSymbols u.symbols enum.id covered)) :
    check ⟨u', x', false⟩ = [] := by
  have htype' := h.type?_switchExpression?_eq h.splice.mem_copies
  rw [hexpression, Option.bind_some, htype] at htype'
  rw [← List.map_eq_nil_iff (f := (·.payload)), map_payload_check]
  simp only [htype', h.symbols_eq]
  rcases hcovered' : (caseLabels x').mapM (labelKey? u'.model) with - | covered'
  · -- some label is not resolved
    rfl
  · have hmem : ∀ l ∈ caseLabels x', ∃ k ∈ covered', labelKey? u'.model l = some k :=
      fun l hl => exists_of_mem_of_forall₂ (forall₂_of_mapM_eq_some hcovered') hl
    have hnone : missingMembers u.symbols enum.id covered' = [] := by
      refine @missingMembers_eq_nil _ _ covered _ ?_ ?_
      · -- the labels that were there have been copied
        intro k hk
        obtain ⟨l, hl, hkey⟩ := exists_of_mem_of_forall₂ (forall₂_of_mapM_eq_some hcovered).flip hk
        obtain ⟨l', hl', hkey'⟩ := h.exists_caseLabel hl
        obtain ⟨k', hk', hkey''⟩ := hmem l' hl'
        rw [hkey', hkey] at hkey''
        exact Option.some.inj hkey'' ▸ hk'
      · -- a new label has the key of the member
        intro m hm
        obtain ⟨value, hvalue, s, hs, hkey⟩ := exists_of_mem_of_forall₂ hvalues.flip hm
        obtain ⟨l, hl, hhead⟩ := h.exists_caseLabel_of_mem hvalue
        obtain ⟨k, hk, hlabel⟩ := hmem l hl
        refine ⟨k, hk, ?_⟩
        rw [← hlabel, ← h.symbols_eq, labelKey?, hhead]
        simp only [Option.bind_eq_bind, Option.bind_some, hs]
        exact hkey.symm
    simp [findings, hnone]

theorem undisturbed {g : Element} {enum : Symbol} {covered : List SymbolKey}
    (hexpression : x.switchExpression? = some g) (htype : u.model.type? g.id = some enum)
    (hcovered : (caseLabels x).mapM (labelKey? u.model) = some covered)
    (hvalues : List.Forall₂ (Denotes u'.model) (labelValues new)
      (missingSymbols u.symbols enum.id covered)) :
    Undisturbed new x x' u u' := by
  refine ⟨SwitchEnum.reports_eq u', h.check_eq_nil hexpression htype hcovered hvalues, ?_⟩
  refine h.forall₂_switches.imp fun a b hab => ⟨hab, ?_, h.map_payload_check_eq hab⟩
  rintro rfl
  exact (h.splice.kept_of_mem_copies hab).eq_right.1

end MissingCasesFix.Extends

/-! ### The fix -/

namespace MissingCasesFix

open SwitchEnum

variable {t t' : Tree} {x : Element} {d : Diagnostic} {u : AnalysisUnit}

theorem mem_children_of_anchor? {anchor : Element} (h : anchor? x = some anchor) :
    anchor ∈ x.children := by
  rw [anchor?_eq, Option.orElse_eq_orElse, Option.orElse_eq_or, Option.or_eq_some_iff] at h
  rcases h with h | ⟨-, h⟩
  · exact List.mem_of_find?_eq_some h
  · exact List.mem_of_find?_eq_some h

/-- New sections go between two parts of the children. -/
theorem exists_insertionIndex_eq (hx : Below t.top x) :
    ∃ pre post, x.children = pre ++ post ∧ insertionIndex t x = pre.length := by
  rw [insertionIndex]
  rcases hanchor : anchor? x with - | anchor
  · exact ⟨x.children, [], (List.append_nil _).symm, rfl⟩
  · obtain ⟨pre, post, hcs⟩ := List.append_of_mem (mem_children_of_anchor? hanchor)
    refine ⟨pre, anchor :: post, hcs, ?_⟩
    rw [Option.bind_some, Tree.indexInParent?_eq hx hcs]
    rfl

/-- The fix of a diagnostic that flags the expression of a switch adds sections to that switch. -/
theorem exists_fix_eq {g : Element} {enumName : String} {members : List String}
    (ht : t.top.GovernedSwitches) (hx : Below t.top x) (hexpression : x.switchExpression? = some g)
    (hrule : d.ruleId = "SC0002") (hpayload : d.payload = .missingEnumCases enumName members)
    (hmembers : members ≠ []) (hspan : d.span = g.span) :
    ∃ t' x' new, provider.fix t d = .ok t' ∧ Tree.Splice [] new x x' t t' ∧
      new = (x'.children.drop (insertionIndex t x)).take members.length ∧
      new.map shape = members.map fun member =>
        Shape.missingCase enumName member (indents x).ofSection (indents x).ofStatement := by
  obtain ⟨hkind, hmem, hnode⟩ := of_switchExpression?_eq_some hexpression
  have hxnode := isToken_of_mem_children hmem
  have hplaced := (t.placed_top.below hx).child hmem
  have hvisible : g.Visible := by
    obtain ⟨-, g', hg', htext⟩ := ht x hx hkind hxnode
    obtain rfl : g = g' := Option.some.inj (hexpression.symm.trans hg')
    exact hplaced.visible_iff.mpr htext
  -- the way up from what is found at the span leads to the switch, past those in the expression
  obtain ⟨n, hfound, hn, -, -⟩ := t.exists_nodeAt?_eq (hx.trans (.of_child hmem)) hvisible hnode
  have hswitch := switchOn?_eq hx hmem hexpression hn fun z hz =>
    any_switchExpression?_eq_false hplaced hvisible rfl
      (fun w hw hwkind hwnode => (ht w (hx.trans (.child hmem hw)) hwkind hwnode).1) hz
  obtain ⟨pre, post, hcs, hindex⟩ := exists_insertionIndex_eq hx
  obtain ⟨fragments, hadd, hfragments⟩ := exists_addSections_eq t x enumName members
  have hlength : members.length = fragments.length := by
    simpa using congrArg List.length hfragments.symm
  rw [hindex] at hadd ⊢
  obtain ⟨t', x', new, ht', hsplice, hplace, hnew⟩ :=
    Tree.exists_edit_insert_splice hx hxnode hcs fragments
  refine ⟨t', x', new, ?_, hsplice, hlength ▸ hplace, hnew.trans hfragments⟩
  rw [← hspan] at hfound hswitch
  rw [FixProvider.fix, hrule, if_pos (by decide)]
  exact correct_eq_ok hpayload hmembers hfound hswitch hadd ht'

section Sections

variable {new : List Element} {enumName ofSection ofStatement : String} {members : List String}

theorem exists_shape_eq (h : new.map shape = members.map fun member =>
    Shape.missingCase enumName member ofSection ofStatement) {s : Element} (hs : s ∈ new) :
    ∃ member, s.shape = Shape.missingCase enumName member ofSection ofStatement := by
  obtain ⟨member, -, hshape⟩ := List.mem_map.mp (h ▸ List.mem_map_of_mem hs : s.shape ∈ _)
  exact ⟨member, hshape.symm⟩

/-- There is no switch in a new section. -/
theorem kind_ne_of_below {s z : Element} {member : String}
    (h : s.shape = Shape.missingCase enumName member ofSection ofStatement) (hz : Below s z) :
    z.kind ≠ .switchStatement := by
  intro hkind
  have hmem := Shape.kind_mem_kinds hz
  rw [h, Shape.kinds_missingCase, hkind] at hmem
  exact absurd hmem (by decide)

theorem Extends.of_shapes {x' : Element} {u' : AnalysisUnit}
    (hsplice : Tree.Splice [] new x x' u.tree u'.tree) (hkind : x.kind = .switchStatement)
    (hshapes : ∀ s ∈ new, ∃ member,
      s.shape = Shape.missingCase enumName member ofSection ofStatement)
    (hsymbols : u'.symbols = u.symbols)
    (hbindings : u.source.bindings.CarriedOver u'.source.bindings
      (copies [] new u.tree.top u'.tree.top)) : Extends new x x' u u' := by
  refine ⟨hsplice, hkind, fun s hs => ?_, fun s hs z hz => ?_, hsymbols, hbindings⟩
  · obtain ⟨member, hshape⟩ := hshapes s hs
    exact ⟨(of_shape_eq_node hshape).1, (of_shape_eq_node hshape).2.1⟩
  · obtain ⟨member, hshape⟩ := hshapes s hs
    exact kind_ne_of_below hshape hz

/-- A new section has one label, and the value of the label is the member. -/
theorem exists_labelValues_eq {s : Element} {member : String}
    (h : s.shape = Shape.missingCase enumName member ofSection ofStatement) :
    ∃ value, Below s value ∧ value.shape = Shape.memberAccess enumName member ∧
      ∀ rest, labelValues (s :: rest) = value :: labelValues rest := by
  obtain ⟨-, -, hs⟩ := of_shape_eq_node h
  obtain ⟨label, rest, hs, hlabel, hrest⟩ := List.map_eq_cons_iff.mp hs
  obtain ⟨statement, rest, rfl, hstatement, hnil⟩ := List.map_eq_cons_iff.mp hrest
  obtain rfl := List.map_eq_nil_iff.mp hnil
  obtain ⟨hlnode, hlkind, hl⟩ := of_shape_eq_node hlabel
  obtain ⟨hsnode, hskind, -⟩ := of_shape_eq_node hstatement
  obtain ⟨keyword, rest, hl, hkeyword, hrest⟩ := List.map_eq_cons_iff.mp hl
  obtain ⟨value, rest, rfl, hvalue, hrest⟩ := List.map_eq_cons_iff.mp hrest
  have hsnodes : s.childNodes = [label, statement] := by
    rw [childNodes, hs]
    simp [hlnode, hsnode]
  have hlnodes : label.childNodes.head? = some value := by
    rw [childNodes, hl]
    simp [(of_shape_eq_token hkeyword).1, (of_shape_eq_node hvalue).1]
  refine ⟨value, ?_, hvalue, fun rest => ?_⟩
  · exact .child (hs ▸ List.mem_cons_self) (.of_child
      (mem_children_of_mem_childNodes (List.mem_of_mem_head? hlnodes)))
  · simp [labelValues, hsnodes, hlkind, hskind, hlnodes]

/-- The new labels name the members, one after the other. -/
theorem map_shape_labelValues (h : new.map shape = members.map fun member =>
    Shape.missingCase enumName member ofSection ofStatement) :
    (labelValues new).map shape = members.map (Shape.memberAccess enumName) := by
  induction members generalizing new with
  | nil =>
    obtain rfl := List.map_eq_nil_iff.mp h
    rfl
  | cons member members ih =>
    obtain ⟨s, rest, rfl, hs, hrest⟩ := List.map_eq_cons_iff.mp h
    obtain ⟨value, -, hvalue, hcons⟩ := exists_labelValues_eq hs
    rw [hcons, List.map_cons, hvalue, ih hrest, List.map_cons]

theorem labelValues_sublist (h : ∀ s ∈ new, ∃ member,
    s.shape = Shape.missingCase enumName member ofSection ofStatement) :
    (labelValues new).Sublist (new.flatMap preorder) := by
  induction new with
  | nil => exact List.Sublist.refl []
  | cons s rest ih =>
    obtain ⟨⟨member, hs⟩, hrest⟩ := List.forall_mem_cons.mp h
    obtain ⟨value, hbelow, -, hcons⟩ := exists_labelValues_eq hs
    rw [hcons, List.flatMap_cons]
    exact (List.singleton_sublist.mpr (mem_preorder_iff.mpr hbelow)).append (ih hrest)

end Sections

end MissingCasesFix

/-! ### Binding the fixed tree -/

namespace NodeMap

theorem get?_insert (m : NodeMap) (node node' : NodeId) (symbol : SymbolId) :
    (m.insert node symbol).get? node' = if node' = node then some symbol else m.get? node' := by
  show (put node symbol m.entries).lookup node' = _
  rw [get?]
  induction m.entries with
  | nil => rw [put, lookup_cons_eq]
  | cons e rest ih =>
    rw [put, lookup_cons_eq e rest]
    split
    · rw [lookup_cons_eq, lookup_cons_eq e rest]
    · split
      · rename_i heq
        rw [lookup_cons_eq, heq]
        split <;> rfl
      · rename_i hne
        rw [lookup_cons_eq, ih]
        split
        · rename_i heq
          rw [if_neg (heq ▸ Ne.symm hne)]
        · rfl

/-- There is a map with any given answers. -/
theorem exists_get?_eq {entries : List (NodeId × Option SymbolId)}
    (h : (entries.map Prod.fst).Nodup) :
    ∃ m : NodeMap, (∀ e ∈ entries, m.get? e.1 = e.2) ∧
      ∀ node, node ∉ entries.map Prod.fst → m.get? node = none := by
  induction entries with
  | nil => exact ⟨.empty, List.forall_mem_nil _, fun _ _ => rfl⟩
  | cons e entries ih =>
    obtain ⟨node, symbol?⟩ := e
    rw [List.map_cons, List.nodup_cons] at h
    obtain ⟨m, hm, hother⟩ := ih h.2
    cases symbol? with
    | none =>
      refine ⟨m, List.forall_mem_cons.mpr ⟨hother node h.1, hm⟩, fun node' hnode' => ?_⟩
      exact hother node' fun hmem => hnode' (List.mem_cons_of_mem _ hmem)
    | some symbol =>
      refine ⟨m.insert node symbol, List.forall_mem_cons.mpr ⟨?_, fun e he => ?_⟩,
        fun node' hnode' => ?_⟩
      · rw [get?_insert, if_pos rfl]
      · have hne : e.1 ≠ node := fun hnode => h.1 (List.mem_map.mpr ⟨e, he, hnode⟩)
        rw [get?_insert, if_neg hne, hm e he]
      · rw [List.map_cons, List.mem_cons, not_or] at hnode'
        rw [get?_insert, if_neg hnode'.1, hother node' hnode'.2]

/-- The answers for some elements can be carried over to others, beside new ones. -/
theorem exists_carriedOver (m : NodeMap) {pairs : List (Element × Element)}
    {added : List (Element × Symbol)}
    (h : (pairs.map (·.2.id) ++ added.map (·.1.id)).Nodup) :
    ∃ m' : NodeMap, (∀ p ∈ pairs, m'.get? p.2.id = m.get? p.1.id) ∧
      ∀ q ∈ added, m'.get? q.1.id = some q.2.id := by
  have hkeys : ((pairs.map (fun p => (p.2.id, m.get? p.1.id))
      ++ added.map fun q => (q.1.id, some q.2.id)).map Prod.fst).Nodup := by
    rw [List.map_append, List.map_map, List.map_map]
    exact h
  obtain ⟨m', hm', -⟩ := exists_get?_eq hkeys
  rw [List.forall_mem_append, List.forall_mem_map, List.forall_mem_map] at hm'
  exact ⟨m', hm'⟩

end NodeMap

namespace MissingCasesFix

open SwitchEnum

variable {t t' : Tree} {x : Element} {d : Diagnostic} {u : AnalysisUnit}

/-- A host can bind the copies as before, and the new values as it likes. -/
theorem exists_bindings {new : List Element} {x' : Element} {members : List Symbol}
    (h : Tree.Splice [] new x x' t t') (hnew : new.Sublist x'.children)
    (hvalues : (labelValues new).Sublist (new.flatMap preorder))
    (hlength : (labelValues new).length = members.length) (b : Bindings) :
    ∃ b' : Bindings, b.CarriedOver b' (copies [] new t.top t'.top) ∧
      List.Forall₂ (fun value m => b'.referenced.get? value.id = some m.id) (labelValues new)
        members := by
  have hcopies : (copies [] new t.top t'.top).map (·.2.id)
      = (t'.top.outside new).map Element.id := by
    rw [← List.map_snd_zip h.forall₂_copies.length_eq.ge, List.map_map]
    rfl
  have hadded : ((labelValues new).zip members).map (·.1.id)
      = (labelValues new).map Element.id := by
    nth_rewrite 2 [← List.map_fst_zip hlength.le]
    rw [List.map_map]
    rfl
  have houtside : ((copies [] new t.top t'.top).map (·.2.id)).Nodup := by
    rw [hcopies]
    exact t'.distinct_top.sublist (List.filter_sublist.map Element.id)
  have hkeys : ((copies [] new t.top t'.top).map (·.2.id)
      ++ ((labelValues new).zip members).map (·.1.id)).Nodup := by
    rw [List.nodup_append]
    refine ⟨houtside, ?_, ?_⟩
    · -- the values lie in different children of the switch
      have hx' := t'.distinct_top.below h.around.below_right
      rw [hadded]
      exact (hx'.flatMap_children h.spliced.isToken_eq.2).2.sublist
        ((hvalues.trans (hnew.flatMap preorder)).map Element.id)
    · -- the copies lie outside the new sections, the values inside
      rw [hcopies, hadded]
      intro i hi j hj hij
      obtain ⟨z, hz, rfl⟩ := List.mem_map.mp hi
      obtain ⟨value, hvalue, rfl⟩ := List.mem_map.mp hj
      obtain ⟨s, hs, hbelow⟩ := List.mem_flatMap.mp (hvalues.subset hvalue)
      exact isOutside_iff.mp (List.mem_filter.mp hz).2 s hs value (mem_preorder_iff.mp hbelow)
        hij.symm
  rw [← List.append_nil (List.map _ _)] at houtside
  obtain ⟨declared, hdeclared, -⟩ := @NodeMap.exists_carriedOver b.declared _ [] houtside
  obtain ⟨types, htypes, -⟩ := @NodeMap.exists_carriedOver b.types _ [] houtside
  obtain ⟨referenced, hreferenced, hmembers⟩ := b.referenced.exists_carriedOver hkeys
  refine ⟨⟨declared, referenced, types⟩, ⟨fun p hp _ => hdeclared p hp,
    fun p hp _ => hreferenced p hp, fun p hp _ => htypes p hp⟩, ?_⟩
  exact List.forall₂_iff_zip.mpr ⟨hlength, fun hq => hmembers _ hq⟩

/-! ### Closing a diagnostic -/

/-- What the fix of a diagnostic has come to: the reported switch has new sections, one for each
missing member, and everything else is copied.  However the new tree is bound, if the copies are
bound as before and the values of the new labels denote the members they name, the diagnostic is
closed and no other is disturbed.  A host can bind the new tree in this way. -/
structure Closes (u : AnalysisUnit) (d : Diagnostic) (x : Element) (enum : Symbol)
    (members : List Symbol) (new : List Element) (x' : Element) (t' : Tree) : Prop where
  mem_switches : x ∈ switches u.tree
  mem_check : d ∈ check ⟨u, x, false⟩
  payload_eq : d.payload = .missingEnumCases enum.name (members.map (·.name))
  mem_members : ∀ m ∈ members, m ∈ u.symbols.members enum.id
  fix_eq : provider.fix u.tree d = .ok t'
  mem_copies : (x, x') ∈ copies [] new u.tree.top t'.top
  copied : List.Forall₂ (fun a b => b.kind = a.kind ∧ (¬ Below a x → b.shape = a.shape))
    u.tree.top.preorder (t'.top.outside new)
  new_eq : new = (x'.children.drop (insertionIndex u.tree x)).take members.length
  shapes_eq : new.map shape = members.map fun m =>
    Shape.missingCase enum.name m.name (indents x).ofSection (indents x).ofStatement
  values_eq : (labelValues new).map shape
    = members.map fun m => Shape.memberAccess enum.name m.name
  undisturbed : ∀ u' : AnalysisUnit, u'.tree = t' → u'.symbols = u.symbols →
    u.source.bindings.CarriedOver u'.source.bindings (copies [] new u.tree.top t'.top) →
    List.Forall₂ (Denotes u'.model) (labelValues new) members → Undisturbed new x x' u u'
  exists_bindings : ∃ b', u.source.bindings.CarriedOver b' (copies [] new u.tree.top t'.top) ∧
    List.Forall₂ (fun value m => b'.referenced.get? value.id = some m.id) (labelValues new) members

/-- **Adding the missing cases closes the diagnostic and disturbs no other.** -/
theorem closes_reports (ht : u.tree.top.GovernedSwitches)
    (hd : d ∈ SwitchEnum.analyzer.reports u) :
    ∃ x enum members new x' t', Closes u d x enum members new x' t' := by
  rw [SwitchEnum.reports_eq] at hd
  obtain ⟨x, hx, hd⟩ := List.mem_flatMap.mp hd
  have hbelow : Below u.tree.top x := mem_preorder_iff.mp (List.mem_filter.mp hx).1
  have hcheck : d ∈ check ⟨u, x, false⟩ := hd
  obtain ⟨g, enum, covered, hexpression, htype, -, hcovered, hmissing, rfl⟩ :=
    exists_of_mem_check hd
  obtain ⟨t', x', new, hfix, hsplice, hnew, hshapes⟩ := exists_fix_eq ht hbelow hexpression
    (d := u.diagnostic rule g.span
      (.missingEnumCases enum.name (missingMembers u.symbols enum.id covered)) [])
    rfl rfl hmissing rfl
  rw [missingMembers_eq] at hnew hshapes
  refine ⟨x, enum, missingSymbols u.symbols enum.id covered, new, x', t', hx, hcheck, rfl,
    fun m hm => (List.mem_filter.mp hm).1, hfix, hsplice.mem_copies, ?_, ?_, ?_, ?_, ?_, ?_⟩
  · rw [← outside_nil]
    exact hsplice.forall₂_outside
  · rwa [List.length_map] at hnew
  · rwa [List.map_map] at hshapes
  · rw [map_shape_labelValues hshapes, List.map_map]
    rfl
  · rintro u' rfl hsymbols hbindings hdenotes
    have h : Extends new x x' u u' :=
      .of_shapes hsplice (of_switchExpression?_eq_some hexpression).1
        (fun s => exists_shape_eq hshapes) hsymbols hbindings
    exact h.undisturbed hexpression htype hcovered hdenotes
  · refine exists_bindings hsplice ?_ (labelValues_sublist fun s => exists_shape_eq hshapes) ?_ _
    · rw [hnew]
      exact (List.take_sublist _ _).trans (List.drop_sublist _ _)
    · simpa using congrArg List.length (map_shape_labelValues hshapes)

/-- Two switches over an enum, one after the other, without any sections. -/
def twoSwitches : Tree :=
  ⟨#[⟨.block, [1, 2], none⟩, ⟨.switchStatement, [3, 4], none⟩, ⟨.switchStatement, [5, 6], none⟩,
      ⟨.switchKeyword, [], some ⟨"switch", ""⟩⟩, ⟨.identifierName, [7], none⟩,
      ⟨.switchKeyword, [], some ⟨"switch", "\n"⟩⟩, ⟨.identifierName, [8], none⟩,
      ⟨.identifierToken, [], some ⟨"a", " "⟩⟩, ⟨.identifierToken, [], some ⟨"b", " "⟩⟩],
    0, #[none, some 0, some 0, some 1, some 1, some 2, some 2, some 4, some 6], _, rfl, rfl⟩

/-- The switches, with an enum that has one member. -/
def twoSwitchUnit : AnalysisUnit where
  source := { path := ⟨"a.cs"⟩, tree := twoSwitches
              bindings := { types := ⟨[(4, 0), (6, 0)], by decide⟩ } }
  symbols := (SymbolTable.empty.insert
    { name := "Color", kind := .namedType, typeKind := some .enumType }).insert
    { name := "Red", kind := .enumMember, container := some 0 }
  generated := false

/-- The unit with another tree, and with bindings for that. -/
def twoSwitchUnitWith (t' : Tree) (b' : Bindings) : AnalysisUnit :=
  { twoSwitchUnit with source := { twoSwitchUnit.source with tree := t', bindings := b' } }

/-- Of the two diagnostics, the first is closed and the second remains. -/
theorem closes_reports_twoSwitches :
    twoSwitchUnit.tree.top.GovernedSwitches ∧
    ∃ d ∈ SwitchEnum.analyzer.reports twoSwitchUnit, ∃ u' : AnalysisUnit,
      provider.fix twoSwitches d = .ok u'.tree ∧ u'.symbols = twoSwitchUnit.symbols ∧
      (SwitchEnum.analyzer.reports u').map (·.payload) = [.missingEnumCases "Color" ["Red"]] := by
  have hgoverned : twoSwitchUnit.tree.top.GovernedSwitches := by decide
  have hchecks : (switches twoSwitchUnit.tree).map (fun x =>
      (check ⟨twoSwitchUnit, x, false⟩).map fun d => (d.payload, d.span))
      = [[(.missingEnumCases "Color" ["Red"], ⟨7, 8⟩)],
        [(.missingEnumCases "Color" ["Red"], ⟨16, 17⟩)]] := by
    decide +kernel
  obtain ⟨first, rest, hswitches, hfirst, hrest⟩ := List.map_eq_cons_iff.mp hchecks
  obtain ⟨second, rfl, hsecond⟩ := List.map_eq_singleton_iff.mp hrest
  obtain ⟨d, hd, hdpair⟩ := List.map_eq_singleton_iff.mp hfirst
  obtain ⟨e, he, hepair⟩ := List.map_eq_singleton_iff.mp hsecond
  obtain ⟨-, hdspan⟩ := Prod.mk.inj hdpair
  obtain ⟨hepayload, hespan⟩ := Prod.mk.inj hepair
  have hmem : d ∈ SwitchEnum.analyzer.reports twoSwitchUnit := by
    rw [SwitchEnum.reports_eq, hswitches, List.flatMap_cons, hd]
    exact List.mem_cons_self
  obtain ⟨x, enum, members, new, x', t', h⟩ := closes_reports hgoverned hmem
  -- only the first switch has a diagnostic at that span
  have hne : d ≠ e := by
    rintro rfl
    rw [hdspan] at hespan
    cases hespan
  have hxmem : x ∈ switches twoSwitchUnit.tree := h.mem_switches
  rw [hswitches] at hxmem
  obtain rfl : x = first := by
    rcases List.mem_pair.mp hxmem with hx | rfl
    · exact hx
    · exact absurd (List.mem_singleton.mp (he ▸ h.mem_check)) hne
  obtain ⟨b', hcarried, hvalues⟩ := h.exists_bindings
  have hknown : ∀ m ∈ members, m ∈ twoSwitchUnit.symbols.symbols.toList := fun m hm =>
    SymbolTable.mem_of_get?_eq_some (SymbolTable.mem_members_iff.mp (h.mem_members m hm)).1
  obtain ⟨hreports, hfixed, hothers⟩ := h.undisturbed (twoSwitchUnitWith t' b') rfl rfl hcarried
    (forall₂_denotes hknown hvalues)
  rw [hswitches] at hothers
  obtain ⟨y, rest, ⟨-, hy, -⟩, htail, hafter⟩ := List.forall₂_cons_left_iff.mp hothers
  obtain ⟨z, rest, ⟨-, -, hz⟩, hend, rfl⟩ := List.forall₂_cons_left_iff.mp htail
  obtain rfl := List.forall₂_nil_left_iff.mp hend
  obtain rfl := hy rfl
  have hsecond' : second ≠ x := by
    rintro rfl
    rw [hd] at he
    exact hne (List.cons.inj he).1
  refine ⟨hgoverned, d, hmem, twoSwitchUnitWith t' b', h.fix_eq, rfl, ?_⟩
  rw [hreports, hafter, List.flatMap_cons, hfixed, List.nil_append, List.flatMap_singleton,
    hz hsecond', he, List.map_singleton, hepayload]

end MissingCasesFix

end TreeLint
