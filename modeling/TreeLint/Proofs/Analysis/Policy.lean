/-
TreeLint/Proofs/Analysis/Policy.lean

What the policy on generated code withholds.

An analyzer may ask that nothing it reports on generated units is kept.  Where a
diagnostic is located plays no part in this: it is dropped for the unit of the
element at hand, or for the unit of the declaration that a symbol action names.

So a diagnostic in generated code is withheld if it is reported *in place*, that
is, on an element or against a declaration of the unit in which it is located
(`Engine.UnitsAgree.reportsOn_eq_false`).  It makes no difference whether such
diagnostics are reported at all: without them every call comes to the same, and so
does the analysis (`Engine.silenced`, `Engine.run_silenced`).  A symbol action
that names no declaration gets past the policy.
-/
import TreeLint.Proofs.Analysis.Dispatch
import TreeLint.Proofs.Path

namespace TreeLint

/-! ### Diagnostics in generated code -/

/-- Whether a diagnostic is located in the unit. -/
def AnalysisUnit.holds (u : AnalysisUnit) (d : Diagnostic) : Bool :=
  u.path.same d.location.file

namespace SymbolReport

/-- What is reported, whether a declaration is named or not. -/
def diagnostic : SymbolReport → Diagnostic
  | .against _ d => d
  | .plain d => d

/-- Whether a declaration is named, and the diagnostic is located in its unit. -/
def isInPlace : SymbolReport → Bool
  | .against site d => site.unit.holds d
  | .plain _ => false

end SymbolReport

namespace Analyzer

/-- Whether the analyzer wants a diagnostic withheld, given which ones are in generated code. -/
def withholds (a : Analyzer) (generated : Diagnostic → Bool) (d : Diagnostic) : Bool :=
  !a.policy.report && generated d

/-- The action without the diagnostics in place that the analyzer wants withheld. -/
def silenceNode (generated : Diagnostic → Bool) (a : Analyzer) (action : NodeAction) : NodeAction :=
  fun ctx => { action ctx with
    reports := (action ctx).reports.filter fun d => !(a.withholds generated d && ctx.unit.holds d) }

@[inherit_doc silenceNode]
def silenceSymbol (generated : Diagnostic → Bool) (a : Analyzer) (action : SymbolAction) :
    SymbolAction :=
  fun ctx => { action ctx with
    reports := (action ctx).reports.filter fun report =>
      !(a.withholds generated report.diagnostic && report.isInPlace) }

/-- No action reports a diagnostic in place that the analyzer wants withheld. -/
structure Silent (a : Analyzer) (c : Compilation) (generated : Diagnostic → Bool) : Prop where
  onNode : ∀ r ∈ (a.actionsFor c).onNode, ∀ ctx, ∀ d ∈ (r.2 ctx).reports,
    ctx.unit.holds d = true → a.withholds generated d = false
  onSymbol : ∀ r ∈ (a.actionsFor c).onSymbol, ∀ ctx, ∀ report ∈ (r.2 ctx).reports,
    report.isInPlace = true → a.withholds generated report.diagnostic = false

/-- Symbol actions name no declarations but those that they are handed. -/
def NamesSites (a : Analyzer) (c : Compilation) : Prop :=
  ∀ r ∈ (a.actionsFor c).onSymbol, ∀ ctx, ∀ site d,
    .against site d ∈ (r.2 ctx).reports → site ∈ ctx.declarations

end Analyzer

namespace Engine

/-- Whether a diagnostic is located in a generated unit. -/
def inGenerated (e : Engine) (c : Compilation) (d : Diagnostic) : Bool :=
  (e.unitsOf c).any fun u => u.generated && u.holds d

/-- Units at the same path are both generated, or neither is. -/
def UnitsAgree (e : Engine) (c : Compilation) : Prop :=
  ∀ u ∈ e.unitsOf c, ∀ v ∈ e.unitsOf c, u.path.same v.path = true → u.generated = v.generated

/-- The engine whose analyzers do not report in place what they want withheld. -/
def silenced (e : Engine) (c : Compilation) : Engine :=
  e.adapt (Analyzer.silenceNode (e.inGenerated c)) (Analyzer.silenceSymbol (e.inGenerated c))

variable {e : Engine} {c : Compilation} {a : Analyzer}

theorem silent_of_mem_silenced (h : a ∈ (e.silenced c).analyzers) :
    a.Silent c (e.inGenerated c) := by
  obtain ⟨a, -, rfl⟩ := List.mem_map.mp h
  constructor
  · intro r hr ctx d hd hplace
    rw [Analyzer.actionsFor_adapt] at hr
    obtain ⟨r, -, rfl⟩ := List.mem_map.mp hr
    have hkept := (List.mem_filter.mp hd).2
    rwa [hplace, Bool.and_true, Bool.not_eq_true'] at hkept
  · intro r hr ctx report hreport hplace
    rw [Analyzer.actionsFor_adapt] at hr
    obtain ⟨r, -, rfl⟩ := List.mem_map.mp hr
    have hkept := (List.mem_filter.mp hreport).2
    rwa [hplace, Bool.and_true, Bool.not_eq_true'] at hkept

/-! ### Reports in place -/

/-- A unit that holds a diagnostic in generated code is generated. -/
theorem UnitsAgree.generated_eq_true (h : e.UnitsAgree c) {u : AnalysisUnit}
    (hu : u ∈ e.unitsOf c) {d : Diagnostic} (hd : e.inGenerated c d = true)
    (hholds : u.holds d = true) : u.generated = true := by
  obtain ⟨v, hv, hin⟩ := List.any_eq_true.mp hd
  obtain ⟨hgenerated, hplace⟩ := Bool.and_eq_true_iff.mp hin
  have hsame : u.path.same v.path = true :=
    (Path.same_eq_of_same_right hplace u.path).trans hholds
  rw [h u hu v hv hsame, hgenerated]

/-- Reports of an analyzer are not kept on the unit of a diagnostic that it wants withheld. -/
theorem UnitsAgree.reportsOn_eq_false (h : e.UnitsAgree c) {u : AnalysisUnit}
    (hu : u ∈ e.unitsOf c) {d : Diagnostic} (hd : a.withholds (e.inGenerated c) d = true)
    (hholds : u.holds d = true) : a.reportsOn u = false := by
  obtain ⟨hpolicy, hgenerated⟩ := Bool.and_eq_true_iff.mp hd
  rw [Analyzer.reportsOn, h.generated_eq_true hu hgenerated hholds]
  simpa using hpolicy

theorem ofNode_silenceNode (hunits : e.UnitsAgree c) {u : AnalysisUnit} (hu : u ∈ e.unitsOf c)
    (x : Element) (action : NodeAction) :
    Invocation.ofNode a u x (a.silenceNode (e.inGenerated c) action) = .ofNode a u x action := by
  rw [Invocation.ofNode, Invocation.ofNode]
  cases hkeeps : a.reportsOn u with
  | false => rfl
  | true =>
    have hreports : ∀ ctx : NodeContext, ctx.unit = u →
        (a.silenceNode (e.inGenerated c) action ctx).reports = (action ctx).reports := by
      rintro ctx rfl
      apply List.filter_eq_self.mpr
      intro d _
      -- a diagnostic that is dropped here is located in a unit that reports are not kept on
      by_contra hdropped
      simp only [Bool.not_not_eq, Bool.and_eq_true] at hdropped
      have hoff := hunits.reportsOn_eq_false hu hdropped.1 hdropped.2
      rw [hkeeps] at hoff
      cases hoff
    simp only [hreports ⟨u, x, _⟩ rfl]
    rfl

theorem mem_unitsOf_of_mem_sites {id : SymbolId} {site : Declaration}
    (h : site ∈ e.sites c a id) : site.unit ∈ e.unitsOf c := by
  obtain ⟨u, hu, hsite⟩ := List.mem_flatMap.mp h
  obtain ⟨node, -, rfl⟩ := List.mem_map.mp hsite
  exact (List.mem_filter.mp hu).1

/-- Reports that are not kept may as well be left out. -/
theorem keptReports_filter {keep : SymbolReport → Bool} {reports : List SymbolReport}
    (h : ∀ report ∈ reports, keep report = false → keptReports a [report] = []) :
    keptReports a (reports.filter keep) = keptReports a reports := by
  induction reports with
  | nil => rfl
  | cons report reports ih =>
    obtain ⟨hreport, hreports⟩ := List.forall_mem_cons.mp h
    have hcons : ∀ rest, keptReports a (report :: rest)
        = keptReports a [report] ++ keptReports a rest := fun _ =>
      List.filterMap_append (l := [report])
    rw [List.filter_cons, hcons, ← ih hreports]
    cases hkeep : keep report with
    | true => exact hcons _
    | false => rw [hreport hkeep]; rfl

theorem ofSymbol_silenceSymbol (hunits : e.UnitsAgree c) (hsites : a.NamesSites c) (n : SymbolId)
    (s : Symbol) {r : SymbolKind × SymbolAction} (hr : r ∈ (a.actionsFor c).onSymbol) :
    Invocation.ofSymbol a c.symbols (e.sites c a n) s (a.silenceSymbol (e.inGenerated c) r.2)
      = .ofSymbol a c.symbols (e.sites c a n) s r.2 := by
  have hkept : ∀ ctx : SymbolContext, ctx.declarations = e.sites c a n →
      keptReports a (a.silenceSymbol (e.inGenerated c) r.2 ctx).reports
        = keptReports a (r.2 ctx).reports := by
    intro ctx hctx
    apply keptReports_filter
    intro report hreport hdropped
    rw [Bool.not_eq_false', Bool.and_eq_true] at hdropped
    obtain ⟨hwithholds, hplace⟩ := hdropped
    cases report with
    | plain d => cases hplace
    | against site d =>
      -- the unit is one of the analysis only because the action was handed the declaration
      have hsite : site ∈ e.sites c a n := hctx ▸ hsites r hr ctx site d hreport
      have hoff := hunits.reportsOn_eq_false (mem_unitsOf_of_mem_sites hsite) hwithholds hplace
      rw [keptReports, List.filterMap_cons_none]
      · rfl
      · exact if_neg (ne_true_of_eq_false hoff)
  simp only [Invocation.ofSymbol, hkept ⟨s, c.symbols, e.sites c a n, _⟩ rfl]
  rfl

/-! ### Runs -/

theorem invocation?_silenced (hunits : e.UnitsAgree c) (hsites : ∀ a ∈ e.analyzers, a.NamesSites c)
    (call : Call) : (e.silenced c).invocation? c call = e.invocation? c call := by
  have hsame : (e.silenced c).invocation? c call = (e.invocation? c call).map fun i => i := by
    apply invocation?_adapt
    · intro a _ u hu x r _
      exact ofNode_silenceNode hunits hu x r.2
    · intro a ha n s r hr
      exact ofSymbol_silenceSymbol hunits (hsites a ha) n s hr
  rw [hsame, Option.map_id']

theorem run_silenced (hunits : e.UnitsAgree c) (hsites : ∀ a ∈ e.analyzers, a.NamesSites c) :
    (e.silenced c).run c = e.run c := by
  -- the same calls in the same steps, and each of them comes to the same
  have hperform : (e.silenced c).perform c = e.perform c := by
    funext p call
    rw [perform, perform, invocation?_silenced hunits hsites]
  have hstep : (e.silenced c).step c = e.step c := by
    funext p calls
    rw [step, step, hperform]
  rw [run_eq_foldl_steps, run_eq_foldl_steps, hstep, silenced, steps_adapt]
  rfl

theorem report_silenced (p : Progress) : (e.silenced c).report c p = e.report c p := by
  rw [report, report, finish, finish, silenced, select?_adapt]

/-! ### Main result -/

/-- **The policy withholds what is reported in place.**  If an analyzer does not want its reports
on generated units kept, it makes no difference to an analysis whether it reports diagnostics there,
as long as these are located in the unit of the element at hand, or of a declaration that is named:
without all of them the analysis comes to the same report. -/
theorem analyze_silenced (e : Engine) (c : Compilation) (hunits : e.UnitsAgree c)
    (hsites : ∀ a ∈ e.analyzers, a.NamesSites c) :
    (e.silenced c).analyze c = e.analyze c ∧
      ∀ a ∈ (e.silenced c).analyzers, a.Silent c (e.inGenerated c) := by
  refine ⟨?_, fun a => silent_of_mem_silenced⟩
  rw [analyze, analyze, report_silenced, run_silenced hunits hsites]

/-- A class in two files, the second one of which is generated. -/
def halfGenerated : Compilation :=
  { partialClass with
    units := partialClass.units.zipWith (fun u generated => { u with generated }) [false, true] }

/-- An engine with an analyzer that reports every class, and each type where it is declared, and
that does not want its reports on generated units kept. -/
def discreet (report : Declaration → Diagnostic → SymbolReport) : Engine where
  config := {}
  analyzers :=
    let rule : Rule := { (default : Rule) with enabledByDefault := true }
    [{ name := "discreet"
       rules := [rule]
       policy := { report := false }
       actions :=
         { onNode := [(.classDeclaration, fun ctx =>
             { reports := [ctx.unit.diagnostic rule ctx.node.span .nothing []] })]
           onSymbol := [(.namedType, fun ctx =>
             { reports := ctx.declarations.map fun site =>
                 report site (site.unit.diagnostic rule ⟨0, 0⟩ .nothing []) })] } }]
  generatedGlobs := []

/-- Both actions report in place, and only what is in the other file is shown. -/
theorem analyze_silenced_discreet :
    (discreet .against).UnitsAgree halfGenerated ∧
      (∀ a ∈ (discreet .against).analyzers, a.NamesSites halfGenerated) ∧
      ((discreet .against).silenced halfGenerated).analyze halfGenerated
        = (discreet .against).analyze halfGenerated ∧
      ((discreet .against).analyze halfGenerated).diagnostics.map (·.location.file.text)
        = ["Widget.cs", "Widget.cs"] := by
  have hunits : (discreet .against).UnitsAgree halfGenerated := by
    unfold UnitsAgree
    decide
  have hsites : ∀ a ∈ (discreet .against).analyzers, a.NamesSites halfGenerated := by
    intro a ha r hr ctx site d hd
    obtain rfl := List.mem_singleton.mp ha
    obtain rfl := List.mem_singleton.mp hr
    obtain ⟨site', hsite, heq⟩ := List.mem_map.mp hd
    obtain ⟨rfl, -⟩ := SymbolReport.against.inj heq
    exact hsite
  refine ⟨hunits, hsites, (analyze_silenced (discreet .against) halfGenerated hunits hsites).1, ?_⟩
  rw [diagnostics_analyze_eq_insertionSort]
  decide +kernel

/-- A symbol action that names no declaration gets past the policy. -/
theorem exists_shown_inGenerated :
    ¬ ∀ (e : Engine) (c : Compilation), (∀ a ∈ e.analyzers, a.policy.report = false) →
      ∀ d ∈ (e.analyze c).diagnostics, e.inGenerated c d = false := by
  intro h
  let e : Engine := discreet fun _ => .plain
  let c : Compilation := { halfGenerated with units := halfGenerated.units.drop 1 }
  have hpolicy : ∀ a ∈ e.analyzers, a.policy.report = false := by
    simp [e, discreet]
  have hany : (e.analyze c).diagnostics.any (e.inGenerated c) = true := by decide +kernel
  obtain ⟨d, hd, hgenerated⟩ := List.any_eq_true.mp hany
  rw [h e c hpolicy d hd] at hgenerated
  cases hgenerated

end Engine

end TreeLint
