/-
TreeLint/Proofs/Analysis/Unbinding.lean

Less bound, less reported.

A host may leave nodes unbound.  Bindings are *within* others if each of the
three maps has only entries that the other has as well, and a compilation is
within another if its units are the same up to that.  The built-in rules give
up a construct when one of its lookups stays without answer, so on every node
they report what they would report with more bound, or nothing
(`check_sublist_of_within` for each of the three).  A rule that passed over
what it cannot resolve would break this.

The reports of a whole analysis are put together from those on the nodes by
lists only, so they are a sublist too (`Engine.sublist_reported_run`), and
selecting and sorting change nothing about that.
-/
import TreeLint.Proofs.Analysis.Schedule
import TreeLint.Registry

namespace TreeLint

/-! ### Less information -/

/-- The map has no entry that the other has not. -/
def NodeMap.Within (m' m : NodeMap) : Prop :=
  ∀ node symbol, m'.get? node = some symbol → m.get? node = some symbol

/-- Nothing is bound that is not bound to the same symbol in the other. -/
structure Bindings.Within (b' b : Bindings) : Prop where
  declared : b'.declared.Within b.declared
  referenced : b'.referenced.Within b.referenced
  types : b'.types.Within b.types

/-- The unit is the other one with less bound. -/
structure SourceUnit.Within (u' u : SourceUnit) : Prop where
  path : u'.path = u.path
  tree : u'.tree = u.tree
  generated : u'.generated = u.generated
  bindings : u'.bindings.Within u.bindings

/-- The compilation is the other one with less bound. -/
structure Compilation.Within (c' c : Compilation) : Prop where
  symbols : c'.symbols = c.symbols
  units : List.Forall₂ SourceUnit.Within c'.units c.units

/-- The unit, as an analysis sees it, is the other one with less bound. -/
structure AnalysisUnit.Within (u' u : AnalysisUnit) : Prop where
  symbols : u'.symbols = u.symbols
  generated : u'.generated = u.generated
  source : u'.source.Within u.source

/-! ### Lookups -/

/-- A list on which a function is defined throughout is taken to the same values by one that is
defined on more. -/
theorem mapM_eq_some_of_imp {α β : Type} {f g : α → Option β} {xs : List α} {ys : List β}
    (hfg : ∀ x y, f x = some y → g x = some y) (h : xs.mapM f = some ys) :
    xs.mapM g = some ys := by
  induction xs generalizing ys with
  | nil => exact h
  | cons x xs ih =>
    simp only [List.mapM_cons, Option.bind_eq_bind, Option.bind_eq_some_iff] at h ⊢
    obtain ⟨y, hy, rest, hrest, hys⟩ := h
    exact ⟨y, hfg x y hy, rest, ih hrest, hys⟩

namespace AnalysisUnit.Within

variable {u' u : AnalysisUnit} (h : u'.Within u)
include h

theorem tree_eq : u'.tree = u.tree := h.source.tree

/-- A diagnostic takes from its unit nothing but the path and the tree. -/
theorem diagnostic_eq (rule : Rule) (span : Span) (payload : Payload) (args : List String) :
    u'.diagnostic rule span payload args = u.diagnostic rule span payload args := by
  have hpath : u'.path = u.path := h.source.path
  simp only [diagnostic, elementAt?, h.tree_eq, hpath]

theorem model_symbols_eq : u'.model.symbols = u.model.symbols := h.symbols

/-- What a map that has less of it makes of a node, the other map makes of it too. -/
theorem bind_get?_eq_some {m' m : NodeMap} (hm : m'.Within m) {node : NodeId} {s : Symbol}
    (hs : (m'.get? node).bind u'.model.symbols.get? = some s) :
    (m.get? node).bind u.model.symbols.get? = some s := by
  obtain ⟨id, hid, hget⟩ := Option.bind_eq_some_iff.mp hs
  rw [hm node id hid, ← h.model_symbols_eq]
  exact hget

theorem declared?_eq_some {node : NodeId} {s : Symbol} (hs : u'.model.declared? node = some s) :
    u.model.declared? node = some s :=
  h.bind_get?_eq_some h.source.bindings.declared hs

theorem referenced?_eq_some {node : NodeId} {s : Symbol}
    (hs : u'.model.referenced? node = some s) : u.model.referenced? node = some s :=
  h.bind_get?_eq_some h.source.bindings.referenced hs

theorem type?_eq_some {node : NodeId} {s : Symbol} (hs : u'.model.type? node = some s) :
    u.model.type? node = some s :=
  h.bind_get?_eq_some h.source.bindings.types hs

end AnalysisUnit.Within

/-! ### The three rules -/

section Rules

variable {u' u : AnalysisUnit} (h : u'.Within u) (x : Element) (cancelled : Bool)
include h

namespace EqualsHashCode

theorem rootKey?_eq_some {method : Element} {key : SymbolKey}
    (hkey : rootKey? u'.model method = some key) : rootKey? u.model method = some key := by
  simp only [rootKey?, Option.bind_eq_bind, Option.bind_eq_some_iff] at hkey ⊢
  obtain ⟨declared, hdeclared, root, hroot, hkey⟩ := hkey
  rw [h.model_symbols_eq] at hroot hkey
  exact ⟨declared, h.declared?_eq_some hdeclared, root, hroot, hkey⟩

theorem check_sublist_of_within (canonical : Canonical) :
    (check canonical ⟨u', x, cancelled⟩).Sublist (check canonical ⟨u, x, cancelled⟩) := by
  rcases hkeys : (overrides x).mapM (rootKey? u'.model) with - | keys
  · -- an override that is not bound gives up the class
    simp only [check, hkeys]
    exact List.nil_sublist _
  · have hkeys' := mapM_eq_some_of_imp (fun _ _ => rootKey?_eq_some h) hkeys
    simp only [check, hkeys, hkeys', h.diagnostic_eq]
    exact List.Sublist.refl _

end EqualsHashCode

namespace SwitchEnum

theorem labelKey?_eq_some {label : Element} {key : SymbolKey}
    (hkey : labelKey? u'.model label = some key) : labelKey? u.model label = some key := by
  simp only [labelKey?, Option.bind_eq_bind, Option.bind_eq_some_iff] at hkey ⊢
  obtain ⟨value, hvalue, symbol, hsymbol, hkey⟩ := hkey
  rw [h.model_symbols_eq] at hkey
  exact ⟨value, hvalue, symbol, h.referenced?_eq_some hsymbol, hkey⟩

theorem check_sublist_of_within :
    (check ⟨u', x, cancelled⟩).Sublist (check ⟨u, x, cancelled⟩) := by
  rcases hexpression : x.switchExpression? with - | expression
  · simp only [check, hexpression]
    exact List.Sublist.refl _
  · rcases htype : u'.model.type? expression.id with - | enum
    · simp only [check, hexpression, htype]
      exact List.nil_sublist _
    · have htype' := h.type?_eq_some htype
      rcases hlabels : (caseLabels x).mapM (labelKey? u'.model) with - | covered
      · -- a label that is not bound gives up the switch
        simp only [check, hexpression, htype, hlabels]
        split <;> exact List.nil_sublist _
      · have hlabels' := mapM_eq_some_of_imp (fun _ _ => labelKey?_eq_some h) hlabels
        simp only [check, hexpression, htype, htype', hlabels, hlabels', h.diagnostic_eq,
          h.model_symbols_eq]
        exact List.Sublist.refl _

end SwitchEnum

namespace PropertyChanged

theorem candidate?_eq_some {candidate : Element × Symbol}
    (hcandidate : candidate? ⟨u', x, cancelled⟩ = some candidate) :
    candidate? ⟨u, x, cancelled⟩ = some candidate := by
  simp only [candidate?, Option.bind_eq_bind, Option.bind_eq_some_iff] at hcandidate ⊢
  obtain ⟨_, hcalls, literal, hliteral, value, hvalue, cls, hcls, symbol, hsymbol, property,
    hproperty, heq⟩ := hcandidate
  rw [h.tree_eq] at hcls
  rw [h.symbols] at hproperty
  exact ⟨_, hcalls, literal, hliteral, value, hvalue, cls, hcls, symbol,
    h.declared?_eq_some hsymbol, property, hproperty, heq⟩

theorem check_sublist_of_within :
    (check ⟨u', x, cancelled⟩).Sublist (check ⟨u, x, cancelled⟩) := by
  rcases hcandidate : candidate? ⟨u', x, cancelled⟩ with - | ⟨literal, property⟩
  · simp only [check, hcandidate]
    exact List.nil_sublist _
  · simp only [check, hcandidate, candidate?_eq_some h x cancelled hcandidate, h.diagnostic_eq]
    exact List.Sublist.refl _

end PropertyChanged

end Rules

/-! ### Whole analyses -/

namespace Engine

variable {e : Engine} {c' c : Compilation}

/-- The analyzer looks at nodes only, never asks for a stop, and reports less where less is
bound. -/
structure Prepared.Cautious (a : Prepared) : Prop where
  onSymbol : a.actions.onSymbol = []
  quiet : a.Quiet
  sublist : ∀ k action, (k, action) ∈ a.actions.onNode → ∀ u' u : AnalysisUnit, u'.Within u →
    ∀ x, (action ⟨u', x, false⟩).reports.Sublist (action ⟨u, x, false⟩).reports

/-- An analyzer with one node action that reports what a check finds. -/
theorem cautious_of_onNode_eq {a : Prepared} {kind : Kind} {check : NodeContext → List Diagnostic}
    (hnode : a.actions.onNode = [(kind, fun ctx => { reports := check ctx })])
    (hsymbol : a.actions.onSymbol = [])
    (hcheck : ∀ u' u : AnalysisUnit, u'.Within u → ∀ x,
      (check ⟨u', x, false⟩).Sublist (check ⟨u, x, false⟩)) : a.Cautious where
  onSymbol := hsymbol
  quiet := quiet_of_onNode_eq hnode hsymbol
  sublist := by
    intro k action haction u' u h x
    rw [hnode, List.mem_singleton] at haction
    obtain ⟨rfl, rfl⟩ := Prod.mk.inj haction
    exact hcheck u' u h x

theorem cautious_builtin {a : Analyzer} (ha : a ∈ builtinAnalyzers) (c : Compilation) :
    Prepared.Cautious ⟨a, a.actionsFor c⟩ := by
  rw [builtinAnalyzers, List.mem_cons, List.mem_cons, List.mem_singleton] at ha
  rcases ha with rfl | rfl | rfl
  · exact cautious_of_onNode_eq rfl rfl fun _ _ h x =>
      EqualsHashCode.check_sublist_of_within h x false _
  · exact cautious_of_onNode_eq rfl rfl fun _ _ h x =>
      SwitchEnum.check_sublist_of_within h x false
  · exact cautious_of_onNode_eq rfl rfl fun _ _ h x =>
      PropertyChanged.check_sublist_of_within h x false

theorem cautious_of_mem_prepare (he : e.analyzers = builtinAnalyzers) {a : Prepared}
    (ha : a ∈ e.prepare c) : a.Cautious := by
  obtain ⟨hmem, hactions⟩ := exists_of_mem_prepare ha
  have hcautious := cautious_builtin (he ▸ hmem) c
  rw [← hactions] at hcautious
  exact hcautious

/-- The actions of the built-in analyzers depend on the symbols only. -/
theorem prepare_eq_of_symbols_eq (he : e.analyzers = builtinAnalyzers)
    (h : c'.symbols = c.symbols) : e.prepare c' = e.prepare c := by
  rw [prepare, prepare]
  apply List.map_congr_left
  intro a ha
  have hmem := (List.mem_filter.mp ha).1
  rw [he, builtinAnalyzers, List.mem_cons, List.mem_cons, List.mem_singleton] at hmem
  rcases hmem with rfl | rfl | rfl
  · simp only [EqualsHashCode.analyzer, Analyzer.actionsFor, List.foldl_cons, List.foldl_nil, h]
  · rfl
  · rfl

/-- Elements that go with each other, taken to lists that are sublists of each other. -/
theorem sublist_flatMap_of_forall₂ {α β γ : Type} {R : α → β → Prop} {f : α → List γ}
    {g : β → List γ} {xs : List α} {ys : List β} (h : List.Forall₂ R xs ys)
    (hfg : ∀ x y, R x y → (f x).Sublist (g y)) : (xs.flatMap f).Sublist (ys.flatMap g) := by
  induction h with
  | nil => exact List.Sublist.slnil
  | cons hxy _ ih =>
    rw [List.flatMap_cons, List.flatMap_cons]
    exact (hfg _ _ hxy).append ih

theorem sublist_flatMap {α γ : Type} {f g : α → List γ} {xs : List α}
    (hfg : ∀ x ∈ xs, (f x).Sublist (g x)) : (xs.flatMap f).Sublist (xs.flatMap g) :=
  sublist_flatMap_of_forall₂ (R := fun x y => x = y ∧ x ∈ xs)
    (List.forall₂_same.mpr fun _ hx => ⟨rfl, hx⟩) (by rintro x _ ⟨rfl, hx⟩; exact hfg x hx)

theorem sublist_nodeReports {a : Prepared} (ha : a.Cautious) {u' u : AnalysisUnit}
    (h : u'.Within u) (x : Element) : (nodeReports u' x a).Sublist (nodeReports u x a) := by
  have hreportsOn : a.analyzer.reportsOn u' = a.analyzer.reportsOn u := by
    rw [Analyzer.reportsOn, h.generated, Analyzer.reportsOn]
  rw [nodeReports, nodeEvents, nodeReports, nodeEvents, List.flatMap_map, List.flatMap_map]
  apply sublist_flatMap
  intro action haction
  rw [hreportsOn]
  show (if _ then _ else _ : List Diagnostic).Sublist (if _ then _ else _)
  split
  · exact ha.sublist _ action (mem_forNode haction) u' u h x
  · exact List.Sublist.refl _

/-- A pass over a unit with less bound reports less. -/
theorem sublist_unitReports {analyzers : List Prepared} (ha : ∀ a ∈ analyzers, a.Cautious)
    {u' u : AnalysisUnit} (h : u'.Within u) :
    (unitReports analyzers u').Sublist (unitReports analyzers u) := by
  have hrunsOn : (fun a : Prepared => a.analyzer.runsOn u') = fun a => a.analyzer.runsOn u := by
    funext a
    rw [Analyzer.runsOn, h.generated, Analyzer.runsOn]
  rw [unitReports_eq, unitReports_eq, h.tree_eq, hrunsOn]
  apply sublist_flatMap
  intro x _
  apply sublist_flatMap
  intro a hmem
  exact sublist_nodeReports (ha a (List.mem_filter.mp hmem).1) h x

/-- Less bound makes no difference to what counts as generated. -/
theorem forall₂_unitsOf (e : Engine) (h : c'.Within c) :
    List.Forall₂ AnalysisUnit.Within (e.unitsOf c') (e.unitsOf c) := by
  rw [unitsOf, unitsOf, List.forall₂_map_left_iff, List.forall₂_map_right_iff]
  refine h.units.imp ?_
  intro u' u hu
  refine ⟨h.symbols, ?_, hu⟩
  show e.isGenerated u' = e.isGenerated u
  rw [isGenerated, isGenerated, hu.generated, hu.path, hu.tree]

theorem unstopped_builtin (he : e.analyzers = builtinAnalyzers) (hrunning : e.cancelled = false)
    (c : Compilation) : e.Unstopped c :=
  ⟨fun _ ha => (cautious_of_mem_prepare he ha).quiet, hrunning⟩

/-- The built-in analyzers look at nodes only, so what they report after the concurrent pass is
reported unit by unit. -/
theorem reports_laterEvents (he : e.analyzers = builtinAnalyzers) (c : Compilation) :
    (e.laterEvents c).flatMap (·.reports) = (e.unitsOf c).flatMap (unitReports (e.passes c).2) := by
  have hsymbols : (e.prepare c).flatMap (symbolPass c (e.unitsOf c)) = [] := by
    rw [List.flatMap_eq_nil_iff]
    intro a ha
    rw [symbolPass, (cautious_of_mem_prepare he ha).onSymbol]
    rfl
  rw [laterEvents, hsymbols, List.append_nil, List.flatMap_assoc]
  rfl

/-- What an analysis with the built-in analyzers reports: one pass after the other. -/
theorem reported_run_eq (he : e.analyzers = builtinAnalyzers) (hrunning : e.cancelled = false)
    (c : Compilation) :
    (e.run c).reported = (e.unitsOf c).flatMap (unitReports (e.passes c).1)
      ++ (e.unitsOf c).flatMap (unitReports (e.passes c).2) := by
  have h := unstopped_builtin he hrunning c
  rw [h.reported_run, h.pushes_eq, ← List.flatMap_def, reports_laterEvents he]

/-- An analysis with less bound reports less. -/
theorem sublist_reported_run (he : e.analyzers = builtinAnalyzers) (hrunning : e.cancelled = false)
    (h : c'.Within c) : (e.run c').reported.Sublist (e.run c).reported := by
  have hpass : ∀ analyzers : List Prepared, (∀ a ∈ analyzers, a ∈ e.prepare c) →
      ((e.unitsOf c').flatMap (unitReports analyzers)).Sublist
        ((e.unitsOf c).flatMap (unitReports analyzers)) := by
    intro analyzers hmem
    refine sublist_flatMap_of_forall₂ (e.forall₂_unitsOf h) ?_
    intro u' u hu
    exact sublist_unitReports (fun a ha => cautious_of_mem_prepare he (hmem a ha)) hu
  rw [reported_run_eq he hrunning, reported_run_eq he hrunning, passes_eq, passes_eq,
    prepare_eq_of_symbols_eq he h.symbols]
  exact (hpass _ fun a ha => (List.mem_filter.mp ha).1).append
    (hpass _ fun a ha => (List.mem_filter.mp ha).1)

/-- **Less bound, less reported.**  With the built-in analyzers and no stop, every diagnostic on a
compilation that is within another is one on the other, and no more often; and where the settings
can be applied to the reports on the other, they can be applied here. -/
theorem count_diagnostics_le_of_within (he : e.analyzers = builtinAnalyzers)
    (hrunning : e.cancelled = false) (h : c'.Within c) :
    (∀ d, (e.analyze c').diagnostics.count d ≤ (e.analyze c).diagnostics.count d) ∧
      ((e.analyze? c).isSome → (e.analyze? c').isSome) := by
  have hreported := sublist_reported_run he hrunning h
  constructor
  · intro d
    show (e.finish (e.run c').reported).count d ≤ (e.finish (e.run c).reported).count d
    rw [finish, finish, Diagnostic.sort, Diagnostic.sort, (List.mergeSort_perm _ _).count_eq,
      (List.mergeSort_perm _ _).count_eq]
    exact (hreported.filterMap e.select?).count_le d
  · intro hsome
    simp only [analyze?] at hsome ⊢
    split at hsome
    · rename_i hall
      rw [if_pos]
      · rfl
      · rw [List.all_eq_true] at hall ⊢
        exact fun d hd => hall d (hreported.subset hd)
    · cases hsome

/-- A class with two methods that are marked as overrides. -/
def twoOverrides : Tree :=
  ⟨#[⟨.classDeclaration, [1, 2, 3], none⟩, ⟨.identifierToken, [], some ⟨"P", ""⟩⟩,
      ⟨.methodDeclaration, [4], none⟩, ⟨.methodDeclaration, [5], none⟩,
      ⟨.overrideKeyword, [], some ⟨"override", " "⟩⟩,
      ⟨.overrideKeyword, [], some ⟨"override", " "⟩⟩],
    0, #[none, some 0, some 0, some 0, some 2, some 3], _, rfl, rfl⟩

/-- The object type with three members, and an override of each. -/
def objectMembers : SymbolTable :=
  [{ name := "Object", kind := .namedType, typeKind := some .classType, special := some .object },
    { name := "Equals", kind := .method, container := some 0, parameterCount := 1 },
    { name := "GetHashCode", kind := .method, container := some 0 },
    { name := "ToString", kind := .method, container := some 0 },
    { name := "Equals", kind := .method, parameterCount := 1, isOverride := true,
      overridden := some 1 },
    { name := "GetHashCode", kind := .method, isOverride := true, overridden := some 2 },
    { name := "ToString", kind := .method, isOverride := true, overridden := some 3 }].foldl
      SymbolTable.insert .empty

/-- Two classes that override `Equals`.  The other override of the first one is `ToString`; that of
the second one is `GetHashCode`, or is not bound. -/
def overridingClasses (second : NodeMap) : Compilation where
  symbols := objectMembers
  units :=
    [{ path := ⟨"a.cs"⟩, tree := twoOverrides
       bindings := { declared := ⟨[(2, 4), (3, 6)], by simp⟩ } },
      { path := ⟨"b.cs"⟩, tree := twoOverrides, bindings := { declared := second } }]

/-- The half of a pair whose other half is not bound stays without report. -/
theorem count_diagnostics_le_of_within_overridingClasses :
    let both : NodeMap := ⟨[(2, 4), (3, 5)], by simp⟩
    let half : NodeMap := ⟨[(2, 4)], by simp⟩
    let unconfigured : Engine := ⟨{}, builtinAnalyzers, [], false⟩
    (overridingClasses half).Within (overridingClasses both) ∧
      (unconfigured.analyze (overridingClasses both)).diagnostics.map (·.location.file.text)
        = ["a.cs"] ∧
      ∀ d, (unconfigured.analyze (overridingClasses half)).diagnostics.count d
        ≤ (unconfigured.analyze (overridingClasses both)).diagnostics.count d := by
  intro both half unconfigured
  have hhalf : half.Within both := by
    intro node symbol h
    simp only [half, both, NodeMap.get?, List.lookup_cons, List.lookup_nil] at h ⊢
    split at h
    · exact h
    · cases h
  have hsame : ∀ m : NodeMap, m.Within m := fun _ _ _ h => h
  have hwithin : (overridingClasses half).Within (overridingClasses both) :=
    ⟨rfl, .cons ⟨rfl, rfl, rfl, hsame _, hsame _, hsame _⟩
      (.cons ⟨rfl, rfl, rfl, hhalf, hsame _, hsame _⟩ .nil)⟩
  refine ⟨hwithin, ?_, (count_diagnostics_le_of_within rfl rfl hwithin).1⟩
  decide +kernel

end Engine

end TreeLint
