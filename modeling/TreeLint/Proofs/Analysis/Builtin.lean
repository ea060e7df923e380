/-
TreeLint/Proofs/Analysis/Builtin.lean

What the built-in analyses report.

Every diagnostic that has a fix is *founded*: it is in the file of a unit, and
it flags a string literal or the expression of a switch in the tree of that unit
(`Engine.founded_of_mem_diagnostics`).  This holds of all that the actions
report, whether or not the analysis is stopped early, and selecting changes
nothing but severities.
-/
import TreeLint.Proofs.Analysis.Runs
import TreeLint.Proofs.Fix.Steps
import TreeLint.Registry

namespace TreeLint

open Element

/-! ### What actions report -/

namespace Engine

variable {P : Diagnostic → Prop} {e : Engine} {c : Compilation} {p : Progress}

/-- Everything reported so far is as it should be. -/
def Progress.Reports (P : Diagnostic → Prop) (p : Progress) : Prop := ∀ d ∈ p.reported, P d

/-- All that an analyzer reports on the nodes of a unit is as it should be. -/
def Prepared.ReportsOn (P : Diagnostic → Prop) (a : Prepared) (u : AnalysisUnit) : Prop :=
  ∀ k action, (k, action) ∈ a.actions.onNode → ∀ x, Below u.tree.top x → ∀ cancelled,
    ∀ d ∈ (action ⟨u, x, cancelled⟩).reports, P d

theorem reports_visitBy {u : AnalysisUnit} {x : Element} {a : Prepared} (hx : Below u.tree.top x)
    (ha : a.ReportsOn P u) (hp : p.Reports P) : (visitBy u x p a).Reports P := by
  refine List.foldlRecOn _ _ hp ?_
  intro p hp action haction d hd
  rcases List.mem_append.mp hd with hd | hd
  · exact hp d hd
  · split at hd
    · exact ha _ action (mem_forNode haction) x hx _ d hd
    · cases hd

theorem reports_runUnit {u : AnalysisUnit} {analyzers : List Prepared}
    (h : ∀ a ∈ analyzers, a.ReportsOn P u) (hp : p.Reports P) :
    (runUnit analyzers p u).Reports P := by
  refine List.foldlRecOn _ _ hp ?_
  intro p hp x hx
  rw [visit]
  split
  · exact hp
  · refine List.foldlRecOn _ _ hp ?_
    intro p hp a ha
    exact reports_visitBy (mem_preorder_iff.mp hx) (h a (List.mem_filter.mp ha).1) hp

/-- What holds of everything that is reported on nodes holds of everything that is reported, if no
analyzer looks at symbols. -/
theorem reports_run (hnode : ∀ a ∈ e.prepare c, ∀ u ∈ e.unitsOf c, a.ReportsOn P u)
    (hsymbol : ∀ a ∈ e.prepare c, a.actions.onSymbol = []) : (e.run c).Reports P := by
  rw [run]
  simp only [List.partition_eq_filter_filter]
  refine List.foldlRecOn _ _ ?_ ?_
  · refine List.foldlRecOn _ _ (List.foldlRecOn _ _ ?_ ?_) ?_
    · intro d hd
      cases hd
    · intro p hp u hu
      exact reports_runUnit (fun a ha => hnode a (List.mem_filter.mp ha).1 u hu) hp
    · intro p hp u hu
      exact reports_runUnit (fun a ha => hnode a (List.mem_filter.mp ha).1 u hu) hp
  · intro p hp a ha
    rw [runSymbols, hsymbol a ha]
    exact hp

end Engine

/-! ### One analyzer on one unit -/

/-- What an analyzer reports on its way through a unit. -/
def Analyzer.reports (a : Analyzer) (u : AnalysisUnit) : List Diagnostic :=
  (Engine.runUnit [⟨a, a.actions⟩] {} u).reported

/-- An analyzer that checks the nodes of one kind reports what its check finds on each of them. -/
theorem Analyzer.reports_eq {a : Analyzer} {kind : Kind} {check : NodeContext → List Diagnostic}
    (hnode : a.actions.onNode = [(kind, fun ctx => { reports := check ctx })])
    (hsymbol : a.actions.onSymbol = []) (hpolicy : a.policy = {}) (u : AnalysisUnit) :
    a.reports u
      = (u.tree.top.preorder.filter (·.kind == kind)).flatMap fun x => check ⟨u, x, false⟩ := by
  have hquiet : Engine.Prepared.Quiet ⟨a, a.actions⟩ := Engine.quiet_of_onNode_eq hnode hsymbol
  have hruns : a.runsOn u = true := by simp [runsOn, hpolicy]
  have hreports : a.reportsOn u = true := by simp [reportsOn, hpolicy]
  have hvisit : ∀ x : Element, (Engine.nodeEvents u x ⟨a, a.actions⟩).flatMap (·.reports)
      = if x.kind == kind then check ⟨u, x, false⟩ else [] := by
    intro x
    by_cases hkind : kind = x.kind
    · simp [Engine.nodeEvents, Actions.forNode, hnode, hreports, hkind]
    · simp [Engine.nodeEvents, Actions.forNode, hnode, hkind, Ne.symm hkind]
  have hpass : a.reports u = u.tree.top.preorder.flatMap fun x =>
      if x.kind == kind then check ⟨u, x, false⟩ else [] := by
    rw [reports, Engine.runUnit_eq (fun b hb => List.mem_singleton.mp hb ▸ hquiet) u rfl,
      Engine.Progress.reported_afterAll, Engine.unitEvents, List.flatMap_assoc]
    simp only [List.filter_cons, hruns, if_true, List.filter_nil, List.flatMap_singleton, hvisit]
    rfl
  -- nodes of other kinds add nothing
  rw [hpass, ← Element.flatMap_filter (p := (·.kind == kind))]
  · exact List.flatMap_congr fun x hx => if_pos (List.mem_filter.mp hx).2
  · intro x _
    by_cases hkind : (x.kind == kind) = true
    · exact .inl hkind
    · exact .inr (if_neg hkind)

/-! ### Diagnostics with a fix -/

/-- The diagnostic is in the file of a unit, and flags something of its tree if it has a fix. -/
def Diagnostic.Founded (c : Compilation) (d : Diagnostic) : Prop :=
  ∃ u ∈ c.units, d.location.file = u.path ∧ (d.ruleId = EqualsHashCode.rule.id ∨ d.Flags u.tree)

/-- What is inside parentheses lies in them. -/
theorem Element.below_peelParentheses (e : Element) : Below e e.peelParentheses := by
  induction e using Element.induction with
  | token l t => exact .refl _
  | node l cs ih =>
    have hfirst : ∀ ds : List Element, (∀ d ∈ ds, d ∈ cs) → ∀ x, peelFirstNode? ds = some x →
        Below (.node l cs) x := by
      intro ds hds x hx
      induction ds with
      | nil => cases hx
      | cons d ds ihds =>
        rw [peelFirstNode?] at hx
        split at hx
        · exact ihds (fun y hy => hds y (List.mem_cons_of_mem d hy)) hx
        · obtain rfl := Option.some.inj hx
          exact .child (hds d List.mem_cons_self) (ih d (hds d List.mem_cons_self))
    rw [peelParentheses]
    split
    · rcases hx : peelFirstNode? cs with - | x
      · exact .refl _
      · exact hfirst cs (fun _ h => h) x hx
    · exact .refl _

theorem Element.mem_children_of_mem_childNodes {e x : Element} (h : x ∈ e.childNodes) :
    x ∈ e.children :=
  (List.mem_filter.mp h).1

namespace PropertyChanged

variable {ctx : NodeContext} {d : Diagnostic} {x : Element}

/-- The argument is a string literal that lies in the invocation. -/
theorem of_literalArgument?_eq_some {invocation : Element}
    (h : literalArgument? invocation = some x) :
    Below invocation x ∧ x.kind = .literalExpression := by
  simp only [literalArgument?, Option.bind_eq_bind, Option.bind_eq_some_iff] at h
  obtain ⟨arguments, harguments, first, hfirst, expression, hexpression, h⟩ := h
  split at h
  · rename_i hkind
    obtain rfl := Option.some.inj h
    refine ⟨?_, ?_⟩
    · have h1 := List.mem_of_find?_eq_some harguments
      have h2 := mem_children_of_mem_childNodes (List.mem_of_find?_eq_some hfirst)
      have h3 := mem_children_of_mem_childNodes (List.mem_of_mem_head? hexpression)
      exact .child h1 (.child h2 (.child h3 (below_peelParentheses expression)))
    · rw [Bool.and_eq_true, beq_iff_eq] at hkind
      exact hkind.1
  · cases h

/-- A literal that has a value has a string token that is not empty. -/
theorem of_literalValue?_eq_some {value : String} (h : literalValue? x = some value) :
    ∃ token, x.childOfKind? .stringLiteralToken = some token ∧ token.tokenText ≠ "" := by
  simp only [literalValue?, Option.bind_eq_bind, Option.bind_eq_some_iff] at h
  obtain ⟨token, htoken, hdecode⟩ := h
  refine ⟨token, htoken, ?_⟩
  intro hempty
  rw [hempty] at hdecode
  cases hdecode

/-- What is reported is a call of the notifying method with a literal that has a value. -/
theorem exists_of_mem_check (hd : d ∈ check ctx) :
    ∃ literal value name, callsNotify ctx.node = true ∧ literalArgument? ctx.node = some literal ∧
      literalValue? literal = some value ∧
      d = ctx.unit.diagnostic rule literal.span (.nameOfCandidate name) [name] := by
  rw [check] at hd
  rcases hcandidate : candidate? ctx with - | ⟨literal, property⟩
  · rw [hcandidate] at hd
    cases hd
  · rw [hcandidate] at hd
    simp only [candidate?, Option.bind_eq_bind, Option.bind_eq_some_iff] at hcandidate
    obtain ⟨_, hcalls, literal', hliteral, value, hvalue, _, _, _, _, _, _, hpair⟩ := hcandidate
    obtain rfl : literal' = literal := congrArg Prod.fst (Option.some.inj hpair)
    have hcalls' : callsNotify ctx.node = true := by
      by_contra hfalse
      simp [guard, hfalse] at hcalls
    exact ⟨literal', value, property.name, hcalls', hliteral, hvalue, List.mem_singleton.mp hd⟩

theorem founded_of_mem_check (hx : Below ctx.unit.tree.top ctx.node) (hd : d ∈ check ctx) :
    d.location.file = ctx.unit.path ∧ d.Flags ctx.unit.tree := by
  obtain ⟨literal, value, name, -, hliteral, hvalue, rfl⟩ := exists_of_mem_check hd
  obtain ⟨hbelow, hkind⟩ := of_literalArgument?_eq_some hliteral
  obtain ⟨token, htoken, htext⟩ := of_literalValue?_eq_some hvalue
  exact ⟨rfl, .literal rfl rfl (hx.trans hbelow) hkind htoken htext rfl⟩

end PropertyChanged

namespace SwitchEnum

variable {ctx : NodeContext} {d : Diagnostic}

/-- What is reported is a switch over an enum whose labels are all resolved and leave members
out. -/
theorem exists_of_mem_check (hd : d ∈ check ctx) :
    ∃ expression enum covered, ctx.node.switchExpression? = some expression ∧
      ctx.unit.model.type? expression.id = some enum ∧ enum.isEnum = true ∧
      (caseLabels ctx.node).mapM (labelKey? ctx.unit.model) = some covered ∧
      missingMembers ctx.unit.model.symbols enum.id covered ≠ [] ∧
      d = ctx.unit.diagnostic rule expression.span (.missingEnumCases enum.name
        (missingMembers ctx.unit.model.symbols enum.id covered)) [] := by
  simp only [check] at hd
  split at hd
  · cases hd
  · rename_i expression hexpression
    split at hd
    · cases hd
    · rename_i enum htype
      split at hd
      · cases hd
      · rename_i henum
        split at hd
        · cases hd
        · rename_i covered hcovered
          split at hd
          · cases hd
          · rename_i hmissing
            rw [List.isEmpty_iff] at hmissing
            rw [Bool.not_eq_true, Bool.not_eq_false'] at henum
            exact ⟨expression, enum, covered, hexpression, htype, henum, hcovered, hmissing,
              List.mem_singleton.mp hd⟩

theorem founded_of_mem_check (hx : Below ctx.unit.tree.top ctx.node) (hd : d ∈ check ctx) :
    d.location.file = ctx.unit.path ∧ d.Flags ctx.unit.tree := by
  obtain ⟨expression, enum, covered, hexpression, -, -, -, hmissing, rfl⟩ := exists_of_mem_check hd
  exact ⟨rfl, .switch rfl rfl hmissing hx hexpression rfl⟩

end SwitchEnum

namespace EqualsHashCode

variable {canonical : Canonical} {ctx : NodeContext} {d : Diagnostic}

/-- What is reported is a class with an identifier that has one half of the pair. -/
theorem exists_of_mem_check (hd : d ∈ check canonical ctx) :
    ∃ identifier equals, ctx.node.declarationIdentifier? = some identifier ∧
      d = ctx.unit.diagnostic rule identifier.span (.pairedOverride equals) [] := by
  simp only [check] at hd
  split at hd
  · cases hd
  · split at hd
    · cases hd
    · split at hd
      · cases hd
      · rename_i identifier hidentifier
        exact ⟨identifier, _, hidentifier, List.mem_singleton.mp hd⟩

theorem founded_of_mem_check (hd : d ∈ check canonical ctx) :
    d.location.file = ctx.unit.path ∧ d.ruleId = rule.id := by
  obtain ⟨identifier, equals, -, rfl⟩ := exists_of_mem_check hd
  exact ⟨rfl, rfl⟩

end EqualsHashCode

/-! ### The built-in analyses -/

namespace Engine

variable {e : Engine} {c : Compilation} {d d' : Diagnostic}

/-- Selecting changes nothing but the severity. -/
theorem exists_of_select?_eq_some (h : e.select? d = some d') :
    ∃ severity, d' = { d with severity } := by
  rw [select?] at h
  split at h
  · exact ⟨d.severity, (Option.some.inj h).symm⟩
  · split at h
    · cases h
    · exact ⟨_, (Option.some.inj h).symm⟩

theorem founded_of_select?_eq_some (h : e.select? d = some d') (hd : d.Founded c) :
    d'.Founded c := by
  obtain ⟨severity, rfl⟩ := exists_of_select?_eq_some h
  obtain ⟨u, hu, hfile, hd⟩ := hd
  refine ⟨u, hu, hfile, ?_⟩
  rcases hd with hrule | hd
  · exact .inl hrule
  · cases hd with
    | literal hrule hpayload hx hkind htoken htext hspan =>
      exact .inr (.literal hrule hpayload hx hkind htoken htext hspan)
    | switch hrule hpayload hmembers hx hexpression hspan =>
      exact .inr (.switch hrule hpayload hmembers hx hexpression hspan)

/-- The built-in analyzers look at nodes only, and all that they report is founded. -/
theorem founded_builtin {a : Analyzer} (ha : a ∈ builtinAnalyzers) :
    (a.actionsFor c).onSymbol = [] ∧ ∀ u ∈ e.unitsOf c,
      Prepared.ReportsOn (·.Founded c) ⟨a, a.actionsFor c⟩ u := by
  have hunit : ∀ u ∈ e.unitsOf c, u.source ∈ c.units := by
    intro u hu
    obtain ⟨source, hsource, rfl⟩ := List.mem_map.mp hu
    exact hsource
  rw [builtinAnalyzers, List.mem_cons, List.mem_cons, List.mem_singleton] at ha
  rcases ha with rfl | rfl | rfl
  · refine ⟨rfl, ?_⟩
    intro u hu k action haction x hx cancelled d hd
    obtain ⟨-, rfl⟩ := Prod.mk.inj (List.mem_singleton.mp haction)
    obtain ⟨hfile, hrule⟩ := EqualsHashCode.founded_of_mem_check hd
    exact ⟨u.source, hunit u hu, hfile, .inl hrule⟩
  · refine ⟨rfl, ?_⟩
    intro u hu k action haction x hx cancelled d hd
    obtain ⟨-, rfl⟩ := Prod.mk.inj (List.mem_singleton.mp haction)
    obtain ⟨hfile, hflags⟩ := SwitchEnum.founded_of_mem_check hx hd
    exact ⟨u.source, hunit u hu, hfile, .inr hflags⟩
  · refine ⟨rfl, ?_⟩
    intro u hu k action haction x hx cancelled d hd
    obtain ⟨-, rfl⟩ := Prod.mk.inj (List.mem_singleton.mp haction)
    obtain ⟨hfile, hflags⟩ := PropertyChanged.founded_of_mem_check hx hd
    exact ⟨u.source, hunit u hu, hfile, .inr hflags⟩

/-- All that the built-in analyzers report is founded. -/
theorem reports_founded (he : e.analyzers = builtinAnalyzers) (c : Compilation) :
    (e.run c).Reports (·.Founded c) := by
  apply reports_run
  · intro a ha u hu
    obtain ⟨hmem, hactions⟩ := exists_of_mem_prepare ha
    have hbuiltin := (@founded_builtin e c a.analyzer (he ▸ hmem)).2 u hu
    rw [← hactions] at hbuiltin
    exact hbuiltin
  · intro a ha
    obtain ⟨hmem, hactions⟩ := exists_of_mem_prepare ha
    rw [hactions]
    exact (@founded_builtin e c a.analyzer (he ▸ hmem)).1

/-- Every diagnostic that the built-in analyzers come to is founded. -/
theorem founded_of_mem_diagnostics (he : e.analyzers = builtinAnalyzers)
    (hd : d ∈ (e.analyze c).diagnostics) : d.Founded c := by
  have hselected : d ∈ (e.run c).reported.filterMap e.select? := List.mem_mergeSort.mp hd
  obtain ⟨d₀, hd₀, hselect⟩ := List.mem_filterMap.mp hselected
  exact founded_of_select?_eq_some hselect (reports_founded he c d₀ hd₀)

end Engine

end TreeLint
