/-
TreeLint/Proofs/Analysis/Renumbering.lean

Numbers do not matter.

A host numbers the slots of a unit as it likes and keys the bindings by these
numbers.  A compilation is *renumbered* if each unit has the same tree under
other numbers and binds each node as before, under its new number
(`Compilation.Renumbered`); it is *rewritten* if each tree went through an edit
without calls and the bindings went along, in document order
(`Compilation.Rewritten`), which is a renumbering like any other.

A rule looks at the elements of a tree, at what lies above and below them, and
at the symbols that they are bound to.  All of it commutes with the new
numbers, so `check` finds on a renumbered element what it finds on the element
(`check_renumber` for each rule), and a diagnostic has no number in it.  A run
hands over the renumbered elements in the same order, and comes to the same
progress step by step (`Engine.run_eq_of_renumbered`).  In the concurrent pass
each unit pushes what it pushed before, so the schedules are the same as well
(`Engine.runScheduled_eq_of_renumbered`).
-/
import TreeLint.Proofs.Analysis.Unbinding
import TreeLint.Proofs.Fix.MissingCases
import TreeLint.Proofs.Tree.Renumbering

namespace TreeLint

open Element

/-! ### Units with other numbers -/

/-- The unit `u'` is `u` with other numbers: a node of the tree is bound under its new number as it
was under the old one. -/
structure SourceUnit.Renumbering (ρ : NodeId → NodeId) (u u' : SourceUnit) : Prop where
  path : u'.path = u.path
  generated : u'.generated = u.generated
  tree : u.tree.Renumbering ρ u'.tree
  bindings : u.bindings.CarriedOver u'.bindings
    (u.tree.top.preorder.map fun x => (x, x.renumber ρ))

/-- The unit `u'` is `u` after an edit without calls: the new tree has its own numbers, and a node
is bound as the one at the same place in document order was. -/
structure SourceUnit.Rewriting (u u' : SourceUnit) : Prop where
  path : u'.path = u.path
  generated : u'.generated = u.generated
  tree : u.tree.edit {} = .ok u'.tree
  bindings : u.bindings.CarriedOver u'.bindings (u.tree.top.preorder.zip u'.tree.top.preorder)

/-- Each unit has other numbers; the symbols are the same. -/
structure Compilation.Renumbered (c c' : Compilation) : Prop where
  symbols : c'.symbols = c.symbols
  units : List.Forall₂ (fun u u' => ∃ ρ, SourceUnit.Renumbering ρ u u') c.units c'.units

/-- Each unit went through an edit without calls; the symbols are the same. -/
structure Compilation.Rewritten (c c' : Compilation) : Prop where
  symbols : c'.symbols = c.symbols
  units : List.Forall₂ SourceUnit.Rewriting c.units c'.units

/-- A unit, as an analysis sees it, with other numbers. -/
structure AnalysisUnit.Renumbering (ρ : NodeId → NodeId) (u u' : AnalysisUnit) : Prop where
  symbols : u'.symbols = u.symbols
  generated : u'.generated = u.generated
  source : SourceUnit.Renumbering ρ u.source u'.source

/-! ### Edits without calls -/

namespace Tree

/-- An edit without calls has a result, and the result has the same shape. -/
theorem exists_edit_empty_eq_ok (t : Tree) :
    ∃ t', t.edit {} = .ok t' ∧ t'.top.shape = t.top.shape := by
  obtain ⟨t', ht', hshape⟩ := @exists_edit_eq_ok t {} (List.forall_mem_nil _)
  refine ⟨t', ht', ?_⟩
  rw [hshape, ← Revision.revise_empty]
  exact Revision.revise_congr fun _ _ => ⟨rfl, rfl⟩

theorem shape_of_edit_empty {t t' : Tree} (h : t.edit {} = .ok t') :
    t'.top.shape = t.top.shape := by
  obtain ⟨t'', ht'', hshape⟩ := t.exists_edit_empty_eq_ok
  obtain rfl := Except.ok.inj (ht''.symm.trans h)
  exact hshape

end Tree

namespace SourceUnit

variable {u u' : SourceUnit}

theorem Rewriting.exists_renumbering (h : u.Rewriting u') : ∃ ρ, u.Renumbering ρ u' := by
  obtain ⟨ρ, hρ⟩ := Tree.exists_renumbering_of_shape_eq (Tree.shape_of_edit_empty h.tree)
  refine ⟨ρ, h.path, h.generated, hρ, ?_⟩
  rw [← hρ.zip_preorder_eq]
  exact h.bindings

/-- A host can rewrite every unit in this way. -/
theorem exists_rewriting (u : SourceUnit) : ∃ u', u.Rewriting u' := by
  obtain ⟨t', ht', hshape⟩ := u.tree.exists_edit_empty_eq_ok
  have hlength := Tree.length_preorder_eq_of_shape_eq hshape
  have hids : ((u.tree.top.preorder.zip t'.top.preorder).map (·.2.id)
      ++ ([] : List (Element × Symbol)).map (·.1.id)).Nodup := by
    have hzip : (u.tree.top.preorder.zip t'.top.preorder).map (·.2.id)
        = t'.top.preorder.map Element.id := by
      nth_rewrite 2 [← List.map_snd_zip hlength.ge]
      rw [List.map_map]
      rfl
    rw [hzip, List.map_nil, List.append_nil]
    exact t'.nodup_preorder
  obtain ⟨declared, hdeclared, -⟩ := u.bindings.declared.exists_carriedOver hids
  obtain ⟨referenced, hreferenced, -⟩ := u.bindings.referenced.exists_carriedOver hids
  obtain ⟨types, htypes, -⟩ := u.bindings.types.exists_carriedOver hids
  exact ⟨⟨u.path, t', ⟨declared, referenced, types⟩, u.generated⟩, rfl, rfl, ht',
    fun p hp _ => hdeclared p hp, fun p hp _ => hreferenced p hp, fun p hp _ => htypes p hp⟩

end SourceUnit

namespace Compilation

variable {c c' : Compilation}

theorem Rewritten.renumbered (h : c.Rewritten c') : c.Renumbered c' :=
  ⟨h.symbols, h.units.imp fun _ _ hu => hu.exists_renumbering⟩

theorem exists_rewritten (c : Compilation) : ∃ c', c.Rewritten c' := by
  obtain ⟨symbols, units⟩ := c
  have hunits : ∃ units', List.Forall₂ SourceUnit.Rewriting units units' := by
    induction units with
    | nil => exact ⟨[], .nil⟩
    | cons u units ih =>
      obtain ⟨u', hu'⟩ := u.exists_rewriting
      obtain ⟨units', hunits'⟩ := ih
      exact ⟨u' :: units', .cons hu' hunits'⟩
  obtain ⟨units', hunits'⟩ := hunits
  exact ⟨⟨symbols, units'⟩, rfl, hunits'⟩

end Compilation

/-! ### What a rule asks a unit -/

namespace AnalysisUnit.Renumbering

variable {ρ : NodeId → NodeId} {u u' : AnalysisUnit} (h : u.Renumbering ρ u')
include h

theorem tree : u.tree.Renumbering ρ u'.tree := h.source.tree

theorem model_symbols_eq : u'.model.symbols = u.model.symbols := h.symbols

theorem runsOn_eq (a : Analyzer) : a.runsOn u' = a.runsOn u := by
  rw [Analyzer.runsOn, h.generated, Analyzer.runsOn]

theorem reportsOn_eq (a : Analyzer) : a.reportsOn u' = a.reportsOn u := by
  rw [Analyzer.reportsOn, h.generated, Analyzer.reportsOn]

section Bound

variable {x : Element} (hx : Below u.tree.top x) (hnode : x.isToken = false)
include hx hnode

theorem declared?_eq : u'.model.declared? (ρ x.id) = u.model.declared? x.id := by
  have hget := h.source.bindings.declared (x, x.renumber ρ)
    (List.mem_map_of_mem (mem_preorder_iff.mpr hx)) hnode
  rw [id_renumber] at hget
  show (u'.source.bindings.declared.get? (ρ x.id)).bind u'.symbols.get? = _
  rw [hget, h.symbols]
  rfl

theorem referenced?_eq : u'.model.referenced? (ρ x.id) = u.model.referenced? x.id := by
  have hget := h.source.bindings.referenced (x, x.renumber ρ)
    (List.mem_map_of_mem (mem_preorder_iff.mpr hx)) hnode
  rw [id_renumber] at hget
  show (u'.source.bindings.referenced.get? (ρ x.id)).bind u'.symbols.get? = _
  rw [hget, h.symbols]
  rfl

theorem type?_eq : u'.model.type? (ρ x.id) = u.model.type? x.id := by
  have hget := h.source.bindings.types (x, x.renumber ρ)
    (List.mem_map_of_mem (mem_preorder_iff.mpr hx)) hnode
  rw [id_renumber] at hget
  show (u'.source.bindings.types.get? (ρ x.id)).bind u'.symbols.get? = _
  rw [hget, h.symbols]
  rfl

end Bound

theorem elementAt?_eq (s : Span) :
    u'.elementAt? s = (u.elementAt? s).map (Element.renumber ρ) := by
  rw [elementAt?, elementAt?, h.tree.nodeAt?_eq, h.tree.top_eq, preorder_renumber,
    find?_map_renumber ρ (by simp)]
  cases u.tree.nodeAt? s <;> rfl

omit h in
theorem below_of_elementAt?_eq_some {s : Span} {x : Element} (hx : u.elementAt? s = some x) :
    Below u.tree.top x := by
  rw [elementAt?, Option.orElse_eq_orElse, Option.orElse_eq_or, Option.or_eq_some_iff] at hx
  rcases hx with hx | ⟨-, hx⟩
  · exact (Tree.of_nodeAt?_eq_some hx).1
  · exact mem_preorder_iff.mp (List.mem_of_find?_eq_some hx)

/-- A diagnostic takes from its unit the path, the text, and whether there is a test around. -/
theorem diagnostic_eq (rule : Rule) (span : Span) (payload : Payload) (args : List String) :
    u'.diagnostic rule span payload args = u.diagnostic rule span payload args := by
  have hpath : u'.path = u.path := h.source.path
  have htest : (u'.elementAt? span).any u'.tree.isInTestMethod
      = (u.elementAt? span).any u.tree.isInTestMethod := by
    rw [h.elementAt?_eq]
    rcases hx : u.elementAt? span with - | x
    · rfl
    · exact h.tree.isInTestMethod_eq (below_of_elementAt?_eq_some hx)
  simp only [diagnostic, h.tree.text_eq, hpath, htest]

end AnalysisUnit.Renumbering

/-! ### The three rules -/

section Rules

variable {ρ : NodeId → NodeId} {u u' : AnalysisUnit} (h : u.Renumbering ρ u') {x : Element}
variable (hx : Below u.tree.top x) (cancelled : Bool)

namespace EqualsHashCode

theorem overrides_renumber (cls : Element) :
    overrides (cls.renumber ρ) = (overrides cls).map (Element.renumber ρ) := by
  rw [overrides, childNodes_renumber, filter_map_renumber ρ (by simp), overrides]

include h hx

theorem rootKey?_renumber {method : Element} (hmethod : method ∈ overrides x) :
    rootKey? u'.model (method.renumber ρ) = rootKey? u.model method := by
  obtain ⟨hmem, -⟩ := List.mem_filter.mp hmethod
  have hbelow := hx.trans (.of_child (mem_children_of_mem_childNodes hmem))
  have hnode : method.isToken = false := by simpa using (List.mem_filter.mp hmem).2
  rw [rootKey?, id_renumber, h.declared?_eq hbelow hnode, h.model_symbols_eq, rootKey?]

theorem check_renumber (canonical : Canonical) :
    check canonical ⟨u', x.renumber ρ, cancelled⟩ = check canonical ⟨u, x, cancelled⟩ := by
  have hkeys : (overrides (x.renumber ρ)).mapM (rootKey? u'.model)
      = (overrides x).mapM (rootKey? u.model) := by
    rw [overrides_renumber]
    exact mapM_map_renumber ρ fun method hmethod => rootKey?_renumber h hx hmethod
  simp only [check, hkeys, declarationIdentifier?, childOfKind?_renumber]
  rcases x.childOfKind? .identifierToken with - | identifier
  · rfl
  · simp only [Option.map_some, span_renumber, h.diagnostic_eq]

end EqualsHashCode

namespace SwitchEnum

theorem caseLabels_renumber (switch : Element) :
    caseLabels (switch.renumber ρ) = (caseLabels switch).map (Element.renumber ρ) := by
  rw [caseLabels, childNodes_renumber, filter_map_renumber ρ (by simp), List.flatMap_map,
    caseLabels,
    ← filter_map_renumber ρ (by simp), List.map_flatMap]
  simp only [childNodes_renumber]

include h hx

theorem labelKey?_renumber {label : Element} (hlabel : label ∈ caseLabels x) :
    labelKey? u'.model (label.renumber ρ) = labelKey? u.model label := by
  obtain ⟨hmem, -⟩ := List.mem_filter.mp hlabel
  obtain ⟨sec, hsec, hlabel'⟩ := List.mem_flatMap.mp hmem
  have hsec' := mem_children_of_mem_childNodes (List.mem_filter.mp hsec).1
  have hbelow : Below u.tree.top label :=
    (hx.trans (.of_child hsec')).trans (.of_child (mem_children_of_mem_childNodes hlabel'))
  rw [labelKey?, childNodes_renumber, List.head?_map, labelKey?]
  rcases hhead : label.childNodes.head? with - | value
  · rfl
  · have hvalue := List.mem_of_mem_head? hhead
    have hnode : value.isToken = false := by simpa using (List.mem_filter.mp hvalue).2
    show ((u'.model.referenced? (value.renumber ρ).id).bind _) = _
    rw [id_renumber, h.referenced?_eq
      (hbelow.trans (.of_child (mem_children_of_mem_childNodes hvalue))) hnode, h.model_symbols_eq]
    rfl

theorem check_renumber : check ⟨u', x.renumber ρ, cancelled⟩ = check ⟨u, x, cancelled⟩ := by
  have hkeys : (caseLabels (x.renumber ρ)).mapM (labelKey? u'.model)
      = (caseLabels x).mapM (labelKey? u.model) := by
    rw [caseLabels_renumber]
    exact mapM_map_renumber ρ fun label hlabel => labelKey?_renumber h hx hlabel
  simp only [check, hkeys, switchExpression?_renumber]
  rcases hexpression : x.switchExpression? with - | expression
  · rfl
  · obtain ⟨hbelow, hnode⟩ : Below u.tree.top expression ∧ expression.isToken = false := by
      rw [switchExpression?] at hexpression
      split at hexpression
      · have hmem := List.mem_of_find?_eq_some hexpression
        exact ⟨hx.trans (.of_child (mem_children_of_mem_childNodes hmem)),
          by simpa using (List.mem_filter.mp hmem).2⟩
      · cases hexpression
    simp only [Option.map_some, id_renumber, h.type?_eq hbelow hnode, h.model_symbols_eq,
      span_renumber, h.diagnostic_eq]

end SwitchEnum

namespace PropertyChanged

theorem callsNotify_renumber (invocation : Element) :
    callsNotify (invocation.renumber ρ) = callsNotify invocation := by
  rw [callsNotify, childNodes_renumber, List.head?_map, Option.bind_map, callsNotify]
  simp only [Function.comp_def, identifierText?_renumber]

theorem literalArgument?_renumber (invocation : Element) :
    literalArgument? (invocation.renumber ρ)
      = (literalArgument? invocation).map (Element.renumber ρ) := by
  simp only [literalArgument?, Option.bind_eq_bind, childOfKind?_renumber]
  rcases invocation.childOfKind? .argumentList with - | arguments
  · rfl
  · simp only [Option.map_some, Option.bind_some, childNodes_renumber]
    rw [find?_map_renumber ρ (by simp)]
    generalize List.find? _ arguments.childNodes = first?
    rcases first? with - | first
    · rfl
    · simp only [Option.map_some, Option.bind_some, childNodes_renumber, List.head?_map]
      rcases first.childNodes.head? with - | expression
      · rfl
      · simp only [Option.map_some, Option.bind_some, peelParentheses_renumber, kind_renumber,
          childOfKind?_renumber, Option.isSome_map]
        split <;> rfl

theorem literalValue?_renumber (literal : Element) :
    literalValue? (literal.renumber ρ) = literalValue? literal := by
  rw [literalValue?, childOfKind?_renumber, literalValue?]
  rcases literal.childOfKind? .stringLiteralToken with - | token
  · rfl
  · show Text.Literal.decode? (token.renumber ρ).tokenText = _
    rw [tokenText_renumber]
    rfl

include h hx

theorem enclosingClass?_renumber :
    enclosingClass? u'.tree (x.renumber ρ)
      = (enclosingClass? u.tree x).map (Element.renumber ρ) := by
  rw [enclosingClass?, id_renumber, h.tree.ancestors_eq hx, find?_map_renumber ρ (by simp),
    enclosingClass?]

omit h in
/-- The class around an element is a node of the tree. -/
theorem below_of_enclosingClass?_eq_some {cls : Element}
    (hcls : enclosingClass? u.tree x = some cls) :
    Below u.tree.top cls ∧ cls.isToken = false := by
  obtain ⟨above, hlineage⟩ := hx.exists_lineage
  rw [enclosingClass?, Tree.ancestors_eq hx hlineage] at hcls
  have hmem := List.mem_of_find?_eq_some hcls
  exact ⟨hlineage.below_of_mem hmem, hlineage.isToken_of_mem hmem⟩

theorem candidate?_renumber :
    candidate? ⟨u', x.renumber ρ, cancelled⟩
      = (candidate? ⟨u, x, cancelled⟩).map fun c => (c.1.renumber ρ, c.2) := by
  simp only [candidate?, Option.bind_eq_bind, callsNotify_renumber, literalArgument?_renumber,
    enclosingClass?_renumber h hx, h.symbols]
  rcases callsNotify x with - | -
  · rfl
  · rcases literalArgument? x with - | literal
    · rfl
    · simp only [Option.map_some, Option.bind_some, literalValue?_renumber]
      rcases literalValue? literal with - | value
      · rfl
      · rcases hcls : enclosingClass? u.tree x with - | cls
        · rfl
        · obtain ⟨hbelow, hnode⟩ := below_of_enclosingClass?_eq_some hx hcls
          simp only [Option.map_some, Option.bind_some, id_renumber, h.declared?_eq hbelow hnode]
          rcases u.model.declared? cls.id with - | symbol
          · rfl
          · rcases hproperty : property? u.symbols symbol.id value with - | property
            · simp [hproperty, guard]
            · simp [hproperty, guard]

theorem check_renumber : check ⟨u', x.renumber ρ, cancelled⟩ = check ⟨u, x, cancelled⟩ := by
  rw [check, candidate?_renumber h hx, check]
  rcases candidate? ⟨u, x, cancelled⟩ with - | ⟨literal, property⟩
  · rfl
  · simp only [Option.map_some, span_renumber, h.diagnostic_eq]

end PropertyChanged

end Rules

/-! ### Whole analyses -/

namespace Engine

variable {e : Engine} {c c' : Compilation}

/-- The analyzer looks at nodes only, and finds on a renumbered element what it finds on the
element. -/
structure Prepared.Unnumbered (a : Prepared) : Prop where
  onSymbol : a.actions.onSymbol = []
  onNode : ∀ k action, (k, action) ∈ a.actions.onNode → ∀ ρ, ∀ u u' : AnalysisUnit,
    u.Renumbering ρ u' → ∀ x, Below u.tree.top x → ∀ cancelled,
      action ⟨u', x.renumber ρ, cancelled⟩ = action ⟨u, x, cancelled⟩

/-- An analyzer with one node action that reports what a check finds. -/
theorem unnumbered_of_onNode_eq {a : Prepared} {kind : Kind} {check : NodeContext → List Diagnostic}
    (hnode : a.actions.onNode = [(kind, fun ctx => { reports := check ctx })])
    (hsymbol : a.actions.onSymbol = [])
    (hcheck : ∀ ρ, ∀ u u' : AnalysisUnit, u.Renumbering ρ u' → ∀ x, Below u.tree.top x →
      ∀ cancelled, check ⟨u', x.renumber ρ, cancelled⟩ = check ⟨u, x, cancelled⟩) :
    a.Unnumbered where
  onSymbol := hsymbol
  onNode := by
    intro k action haction ρ u u' h x hx cancelled
    rw [hnode, List.mem_singleton] at haction
    obtain ⟨rfl, rfl⟩ := Prod.mk.inj haction
    simp only [hcheck ρ u u' h x hx]

theorem unnumbered_builtin {a : Analyzer} (ha : a ∈ builtinAnalyzers) (c : Compilation) :
    Prepared.Unnumbered ⟨a, a.actionsFor c⟩ := by
  rw [builtinAnalyzers, List.mem_cons, List.mem_cons, List.mem_singleton] at ha
  rcases ha with rfl | rfl | rfl
  · exact unnumbered_of_onNode_eq rfl rfl fun _ _ _ h _ hx cancelled =>
      EqualsHashCode.check_renumber h hx cancelled _
  · exact unnumbered_of_onNode_eq rfl rfl fun _ _ _ h _ hx cancelled =>
      SwitchEnum.check_renumber h hx cancelled
  · exact unnumbered_of_onNode_eq rfl rfl fun _ _ _ h _ hx cancelled =>
      PropertyChanged.check_renumber h hx cancelled

theorem unnumbered_of_mem_prepare (he : e.analyzers = builtinAnalyzers) {a : Prepared}
    (ha : a ∈ e.prepare c) : a.Unnumbered := by
  obtain ⟨hmem, hactions⟩ := exists_of_mem_prepare ha
  have hunnumbered := unnumbered_builtin (he ▸ hmem) c
  rw [← hactions] at hunnumbered
  exact hunnumbered

section Step

variable {ρ : NodeId → NodeId} {u u' : AnalysisUnit} (h : u.Renumbering ρ u')
include h

/-- Handing over a renumbered element comes to the same as handing over the element. -/
theorem visitBy_renumber {x : Element} (hx : Below u.tree.top x) {a : Prepared}
    (ha : a.Unnumbered) (p : Progress) : visitBy u' (x.renumber ρ) p a = visitBy u x p a := by
  rw [visitBy, kind_renumber, visitBy]
  apply List.foldl_ext
  intro p action haction
  rw [ha.onNode _ action (mem_forNode haction) ρ u u' h x hx, h.reportsOn_eq]

theorem visit_renumber {x : Element} (hx : Below u.tree.top x) {active : List Prepared}
    (hactive : ∀ a ∈ active, a.Unnumbered) (p : Progress) :
    visit u' active p (x.renumber ρ) = visit u active p x := by
  rw [visit, visit]
  congr 1
  apply List.foldl_ext
  intro p a ha
  exact visitBy_renumber h hx (hactive a ha) p

theorem runUnit_renumber {analyzers : List Prepared} (ha : ∀ a ∈ analyzers, a.Unnumbered)
    (p : Progress) : runUnit analyzers p u' = runUnit analyzers p u := by
  have hactive : analyzers.filter (·.analyzer.runsOn u') = analyzers.filter (·.analyzer.runsOn u) :=
    List.filter_congr fun a _ => h.runsOn_eq a.analyzer
  rw [runUnit, runUnit, h.tree.top_eq, preorder_renumber, List.foldl_map, hactive]
  apply List.foldl_ext
  intro p x hx
  exact visit_renumber h (mem_preorder_iff.mp hx) (fun a hmem => ha a (List.mem_filter.mp hmem).1) p

end Step

/-- Other numbers make no difference to what counts as generated. -/
theorem forall₂_unitsOf_renumbered (e : Engine) (h : c.Renumbered c') :
    List.Forall₂ (fun u u' => ∃ ρ, AnalysisUnit.Renumbering ρ u u') (e.unitsOf c)
      (e.unitsOf c') := by
  rw [unitsOf, unitsOf, List.forall₂_map_left_iff, List.forall₂_map_right_iff]
  refine h.units.imp ?_
  rintro u u' ⟨ρ, hu⟩
  refine ⟨ρ, h.symbols, ?_, hu⟩
  show e.isGenerated u' = e.isGenerated u
  rw [isGenerated, isGenerated, hu.generated, hu.path, hu.tree.top_eq, leadingTrivia_renumber]

/-- A pass over a renumbered unit comes to the same. -/
theorem runUnit_eq_of_renumbered (he : e.analyzers = builtinAnalyzers) {analyzers : List Prepared}
    (ha : analyzers ⊆ e.prepare c) {u u' : AnalysisUnit}
    (h : ∃ ρ, AnalysisUnit.Renumbering ρ u u') (p : Progress) :
    runUnit analyzers p u' = runUnit analyzers p u := by
  obtain ⟨ρ, hu⟩ := h
  exact runUnit_renumber hu (fun a hmem => unnumbered_of_mem_prepare he (ha hmem)) p

theorem foldl_runUnit_eq_of_renumbered (he : e.analyzers = builtinAnalyzers)
    {analyzers : List Prepared} (ha : analyzers ⊆ e.prepare c) (h : c.Renumbered c')
    (p : Progress) :
    (e.unitsOf c').foldl (runUnit analyzers) p = (e.unitsOf c).foldl (runUnit analyzers) p := by
  have hunits := e.forall₂_unitsOf_renumbered h
  generalize e.unitsOf c = units at hunits ⊢
  generalize e.unitsOf c' = units' at hunits ⊢
  induction hunits generalizing p with
  | nil => rfl
  | cons hu _ ih => rw [List.foldl_cons, List.foldl_cons, runUnit_eq_of_renumbered he ha hu, ih]

/-- The actions of the built-in analyzers depend on the symbols only, so the same passes are
made. -/
theorem passes_eq_of_renumbered (he : e.analyzers = builtinAnalyzers) (h : c.Renumbered c') :
    e.passes c' = e.passes c := by
  rw [passes, prepare_eq_of_symbols_eq he h.symbols, passes]

/-- What follows the concurrent pass is the same on the renumbered compilation. -/
theorem foldl_eq_of_renumbered (he : e.analyzers = builtinAnalyzers) (h : c.Renumbered c')
    (p : Progress) :
    (e.prepare c').foldl (runSymbols c' (e.unitsOf c'))
        ((e.unitsOf c').foldl (runUnit (e.passes c').2) p)
      = (e.prepare c).foldl (runSymbols c (e.unitsOf c))
          ((e.unitsOf c).foldl (runUnit (e.passes c).2) p) := by
  have hsymbols : ∀ (c₀ : Compilation) (units : List AnalysisUnit) (p : Progress),
      (e.prepare c).foldl (runSymbols c₀ units) p = p := by
    intro c₀ units p
    refine List.foldlRecOn (motive := fun q => q = p) _ _ rfl ?_
    rintro _ rfl a ha
    rw [runSymbols, (unnumbered_of_mem_prepare he ha).onSymbol]
    rfl
  rw [passes_eq_of_renumbered he h, prepare_eq_of_symbols_eq he h.symbols, hsymbols, hsymbols,
    foldl_runUnit_eq_of_renumbered he (e.passes_subset c).2 h]

/-- An analysis of the renumbered compilation takes the same steps. -/
theorem run_eq_of_renumbered (he : e.analyzers = builtinAnalyzers) (h : c.Renumbered c') :
    e.run c' = e.run c := by
  show (e.prepare c').foldl _ ((e.unitsOf c').foldl _
    ((e.unitsOf c').foldl (runUnit (e.passes c').1) _)) = _
  rw [passes_eq_of_renumbered he h, foldl_runUnit_eq_of_renumbered he (e.passes_subset c).1 h]
  exact foldl_eq_of_renumbered he h _

/-- Each unit gets as far on its own. -/
theorem map_unitPass_of_renumbered (he : e.analyzers = builtinAnalyzers) (h : c.Renumbered c') :
    (e.unitsOf c').map (e.unitPass c') = (e.unitsOf c).map (e.unitPass c) := by
  rw [← List.forall₂_eq_eq_eq, List.forall₂_map_left_iff, List.forall₂_map_right_iff]
  refine (e.forall₂_unitsOf_renumbered h).flip.imp ?_
  intro u' u hu
  rw [unitPass, passes_eq_of_renumbered he h]
  exact runUnit_eq_of_renumbered he (e.passes_subset c).1 hu _

theorem runScheduled_eq_of_renumbered (he : e.analyzers = builtinAnalyzers) (h : c.Renumbered c')
    (sink : List Diagnostic) : e.runScheduled c' sink = e.runScheduled c sink := by
  have hmap := map_unitPass_of_renumbered he h
  have hinvocations := congrArg
    (List.foldl (fun (d : Dict Nat) p => d.add p.invocations) {}) hmap
  have hcancelled := congrArg (List.any · Progress.cancelled) hmap
  rw [List.foldl_map, List.foldl_map] at hinvocations
  simp only [List.any_map, Function.comp_def] at hcancelled
  rw [runScheduled, runScheduled, hinvocations]
  simp only [hcancelled]
  exact foldl_eq_of_renumbered he h _

/-- An engine comes to the same on both compilations: when the units take their turns, and under
every schedule, as these are the same, too. -/
structure AnalyzesAlike (e : Engine) (c c' : Compilation) : Prop where
  analyze_eq : e.analyze c' = e.analyze c
  analyze?_eq : e.analyze? c' = e.analyze? c
  pushes_eq : e.pushes c' = e.pushes c
  runScheduled_eq : ∀ sink, e.runScheduled c' sink = e.runScheduled c sink
  analyzeScheduled_eq : ∀ sink, e.analyzeScheduled c' sink = e.analyzeScheduled c sink

theorem analyzesAlike_of_renumbered (he : e.analyzers = builtinAnalyzers) (h : c.Renumbered c') :
    e.AnalyzesAlike c c' := by
  have hreport : ∀ p, e.report c' p = e.report c p := by
    intro p
    rw [report, report, h.units.length_eq]
  refine ⟨?_, ?_, ?_, fun sink => runScheduled_eq_of_renumbered he h sink, fun sink => ?_⟩
  · rw [analyze, run_eq_of_renumbered he h, hreport, analyze]
  · simp only [analyze?, run_eq_of_renumbered he h, hreport]
  · have hpushes := congrArg (List.map Progress.reported) (map_unitPass_of_renumbered he h)
    rwa [List.map_map, List.map_map] at hpushes
  · rw [analyzeScheduled, runScheduled_eq_of_renumbered he h, hreport, analyzeScheduled]

/-- **Numbers do not matter.**  The built-in analyzers come to the same report on a compilation
however its slots are numbered, and whichever slots there are that no root reaches; and also after
every tree has gone through an edit without calls and the bindings with it, which can always be
done.  Under a schedule of the concurrent pass they do so, too, whether or not the units have
different paths. -/
theorem analyze_renumbered (he : e.analyzers = builtinAnalyzers) (c : Compilation) :
    (∀ c', c.Renumbered c' → e.AnalyzesAlike c c') ∧
      (∀ c', c.Rewritten c' → e.AnalyzesAlike c c') ∧
      ∃ c', c.Rewritten c' :=
  ⟨fun _ => analyzesAlike_of_renumbered he, fun _ h => analyzesAlike_of_renumbered he h.renumbered,
    c.exists_rewritten⟩

/-- The slots of `twoOverrides` from the last one to the first, behind a slot that the root does not
reach. -/
def twoOverridesBackwards : Tree :=
  ⟨#[⟨.identifierToken, [], some ⟨"Q", ""⟩⟩, ⟨.overrideKeyword, [], some ⟨"override", " "⟩⟩,
      ⟨.overrideKeyword, [], some ⟨"override", " "⟩⟩, ⟨.methodDeclaration, [1], none⟩,
      ⟨.methodDeclaration, [2], none⟩, ⟨.identifierToken, [], some ⟨"P", ""⟩⟩,
      ⟨.classDeclaration, [5, 4, 3], none⟩],
    6, #[none, some 3, some 4, some 6, some 6, some 6, none], _, rfl, rfl⟩

theorem renumbering_twoOverrides :
    twoOverrides.Renumbering (6 - ·) twoOverridesBackwards where
  root := rfl
  slots id s _ hs := by
    have hall : ∀ i < 6, twoOverridesBackwards.slots[6 - i]?
        = (twoOverrides.slots[i]?).map (Slot.renumber (6 - ·)) := by decide
    rw [hall id (Array.getElem?_eq_some_iff.mp hs).1, hs]
    rfl

/-- The second half of each pair is bound under another number, and the report stays. -/
theorem analyze_renumbered_overridingClasses :
    let both : NodeMap := ⟨[(2, 4), (3, 5)], by simp⟩
    let unconfigured : Engine := ⟨{}, builtinAnalyzers, [], false⟩
    let backwards : Compilation :=
      { symbols := objectMembers
        units :=
          [{ path := ⟨"a.cs"⟩, tree := twoOverridesBackwards
             bindings := { declared := ⟨[(3, 6), (4, 4)], by simp⟩ } },
            { path := ⟨"b.cs"⟩, tree := twoOverridesBackwards
              bindings := { declared := ⟨[(3, 5), (4, 4)], by simp⟩ } }] }
    (overridingClasses both).Renumbered backwards ∧
      (unconfigured.analyze backwards).diagnostics.map (·.location.file.text) = ["a.cs"] := by
  intro both unconfigured backwards
  -- every slot of the tree is bound under its new number as under the old one
  have hcarried : ∀ m m' : NodeMap, (∀ i < 6, m'.get? (6 - i) = m.get? i) →
      ({ declared := m } : Bindings).CarriedOver { declared := m' }
        (twoOverrides.top.preorder.map fun x => (x, x.renumber (6 - ·))) := by
    intro m m' hm
    refine ⟨?_, fun _ _ _ => rfl, fun _ _ _ => rfl⟩
    intro p hp _
    obtain ⟨x, hx, rfl⟩ := List.mem_map.mp hp
    rw [id_renumber]
    exact hm x.id (Tree.lt_size_of_below_top (mem_preorder_iff.mp hx))
  have hrenumbered : (overridingClasses both).Renumbered backwards :=
    ⟨rfl, .cons ⟨_, rfl, rfl, renumbering_twoOverrides, hcarried _ _ (by decide)⟩
      (.cons ⟨_, rfl, rfl, renumbering_twoOverrides, hcarried _ _ (by decide)⟩ .nil)⟩
  refine ⟨hrenumbered, ?_⟩
  rw [((analyze_renumbered rfl _).1 _ hrenumbered).analyze_eq]
  decide +kernel

end Engine

end TreeLint
