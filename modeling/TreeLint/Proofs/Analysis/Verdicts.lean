/-
TreeLint/Proofs/Analysis/Verdicts.lean

From what a rule finds on single elements to what an analysis shows.

A rule has one analyzer that looks after it, and this analyzer *checks* the
elements of one kind: what it reports on an element depends on the element and on
its unit.  No other analyzer reports the rule (`Engine.InCharge`).  So whatever
call a report of the rule comes from, it is that of the check on one element
(`Engine.InCharge.exists_of_mem_outcome`).

If a check has one thing to say at most, an analysis that is not stopped shows
exactly what is to be said: one diagnostic for each element on which there is
something to find, in each unit whose file does not ignore the rule, and no other
one of the rule (`Engine.InCharge.exists_delivers`).  This reduces statements on
whole analyses to statements on single elements.
-/
import TreeLint.Proofs.Analysis.Policy
import TreeLint.Proofs.Analysis.Settings
import TreeLint.Proofs.Analysis.Stopping

namespace TreeLint

open Element

/-! ### Analyzers and their rules -/

/-- The analyzer neither lists a rule of the id nor reports one. -/
structure Analyzer.SilentOn (a : Analyzer) (c : Compilation) (id : String) : Prop where
  rules : ∀ r ∈ a.rules, r.id ≠ id
  onNode : ∀ k action, (k, action) ∈ (a.actionsFor c).onNode → ∀ ctx,
    ∀ d ∈ (action ctx).reports, d.ruleId ≠ id
  onSymbol : ∀ k action, (k, action) ∈ (a.actionsFor c).onSymbol → ∀ ctx,
    ∀ report ∈ (action ctx).reports, report.diagnostic.ruleId ≠ id

/-- The analyzer checks the nodes of a kind for one rule, in generated code as elsewhere, and does
nothing else; it has one thing to say on a node at most. -/
structure Analyzer.Checks (a : Analyzer) (c : Compilation) (r : Rule) (kind : Kind)
    (check : AnalysisUnit → Element → List Diagnostic) : Prop where
  rules : a.rules = [r]
  policy : a.policy = {}
  actions : a.actionsFor c =
    { onNode := [(kind, fun ctx => { reports := check ctx.unit ctx.node })] }
  own : ∀ u x, ∀ d ∈ check u x, ∃ span payload args, d = u.diagnostic r span payload args
  one : ∀ u x, (check u x).length ≤ 1

theorem Analyzer.Regular.silentOn {a : Analyzer} {c : Compilation} {id : String}
    (h : a.Regular c) (hrules : ∀ r ∈ a.rules, r.id ≠ id)
    (hsymbol : (a.actionsFor c).onSymbol = []) : a.SilentOn c id where
  rules := hrules
  onNode k action haction ctx d hd := by
    obtain ⟨r, hr, span, payload, args, rfl⟩ := h.ownReports k action haction ctx d hd
    exact hrules r hr
  onSymbol k action haction := by
    rw [hsymbol] at haction
    cases haction

namespace Engine

/-- The engine has the analyzer at a place, and all those at other places are silent on the rule. -/
structure InCharge (e : Engine) (c : Compilation) (r : Rule) (a : Analyzer) (place : Nat) :
    Prop where
  analyzer : e.analyzers[place]? = some a
  others : ∀ n b, n ≠ place → e.analyzers[n]? = some b → b.SilentOn c r.id

/-- Something that a rule has to say on an element of the unit at a place. -/
structure Finding where
  unit : Nat
  node : NodeId
  diagnostic : Diagnostic

/-- The diagnostic as it is shown, with the severity that the settings give to the rule. -/
def Finding.shown (e : Engine) (r : Rule) (f : Finding) : Diagnostic :=
  { f.diagnostic with severity := (e.config.severity? r).getD r.defaultSeverity }

/-- The findings are all there are on elements of the compilation, where the rule is on and not
ignored, and no more than one for each element; and the analysis shows a diagnostic for each of them
and no other one of the rule. -/
structure Delivers (e : Engine) (c : Compilation) (r : Rule)
    (Finds : AnalysisUnit → Element → Diagnostic → Prop) (found : List Finding) : Prop where
  once : (found.map fun f => (f.unit, f.node)).Nodup
  mem_iff : ∀ f, f ∈ found ↔ ∃ u x, (e.unitsOf c)[f.unit]? = some u ∧
    e.config.shows r u.path = true ∧ Below u.tree.top x ∧ x.id = f.node ∧ Finds u x f.diagnostic
  shown : ((e.analyze c).diagnostics.filter (·.ruleId == r.id)).Perm (found.map (Finding.shown e r))

variable {e : Engine} {c : Compilation} {a : Analyzer} {r : Rule} {kind : Kind} {call : Call}
variable {check : AnalysisUnit → Element → List Diagnostic} {i : Invocation} {d : Diagnostic}

theorem inCharge_builtin (he : e.analyzers = builtinAnalyzers) (c : Compilation) {place : Nat}
    (ha : builtinAnalyzers[place]? = some a) (hr : r ∈ a.rules) : e.InCharge c r a place where
  analyzer := he ▸ ha
  others n b hne hb := by
    have hapart : builtinAnalyzers.Pairwise fun a b =>
        ∀ r ∈ a.rules, ∀ s ∈ b.rules, r.id ≠ s.id := by decide
    rw [he] at hb
    have hmem : b ∈ builtinAnalyzers := List.mem_of_getElem? hb
    refine (regular_builtin hmem c).silentOn ?_ (@founded_builtin e c b hmem).1
    intro s hs
    obtain ⟨hlt, rfl⟩ := List.getElem?_eq_some_iff.mp hb
    obtain ⟨hltPlace, rfl⟩ := List.getElem?_eq_some_iff.mp ha
    rw [List.pairwise_iff_getElem] at hapart
    rcases Nat.lt_or_gt_of_ne hne with h | h
    · exact hapart n place hlt hltPlace h s hs r hr
    · exact (hapart place n hltPlace hlt h r hr s hs).symm

/-! ### Where the reports of a rule come from -/

theorem exists_of_mem_keptReports {reports : List SymbolReport} (hd : d ∈ keptReports a reports) :
    ∃ report ∈ reports, report.diagnostic = d := by
  obtain ⟨report, hreport, hkept⟩ := List.mem_filterMap.mp hd
  refine ⟨report, hreport, ?_⟩
  cases report with
  | against declaration diagnostic =>
    simp only at hkept
    split at hkept
    · exact Option.some.inj hkept
    · cases hkept
  | plain diagnostic => exact Option.some.inj hkept

/-- Whatever is reported, also in an analysis that is stopped, comes from a call that is due. -/
theorem reports_due (e : Engine) (c : Compilation) : (e.run c).Reports fun d =>
    ∃ call i cancelled, e.Due c call ∧ e.invocation? c call = some i ∧
      d ∈ (i.outcome cancelled).reports := by
  rw [run_eq_foldl_steps]
  refine List.foldlRecOn _ _ ?_ ?_
  · intro d hd
    cases hd
  · intro p hp calls hcalls
    rw [step]
    split
    · exact hp
    · refine List.foldlRecOn _ _ hp ?_
      intro p hp call hcall d hd
      have hdue : e.Due c call := mem_steps_iff.mp (List.mem_flatten_of_mem hcalls hcall)
      rw [perform] at hd
      cases hi : e.invocation? c call with
      | none =>
        rw [hi] at hd
        exact hp d hd
      | some i =>
        rw [hi] at hd
        rcases List.mem_append.mp hd with hd | hd
        · exact hp d hd
        · exact ⟨call, i, p.cancelled, hdue, hi, hd⟩

namespace InCharge

variable {place : Nat} (h : e.InCharge c r a place) (hchecks : a.Checks c r kind check)
include h hchecks

/-- The rule is known by its id. -/
theorem rule?_eq : e.rule? r.id = some r := by
  have hmem : r ∈ (e.analyzers.flatMap (·.rules)).reverse := by
    rw [List.mem_reverse, List.mem_flatMap]
    exact ⟨a, List.mem_of_getElem? h.analyzer, hchecks.rules ▸ List.mem_singleton_self r⟩
  have hsome : (e.rule? r.id).isSome = true :=
    List.find?_isSome.mpr ⟨r, hmem, beq_self_eq_true r.id⟩
  obtain ⟨s, hs⟩ := Option.isSome_iff_exists.mp hsome
  have hid : s.id = r.id := beq_iff_eq.mp (List.find?_some (p := fun s : Rule => s.id == r.id) hs)
  obtain ⟨b, hb, hsb⟩ := List.mem_flatMap.mp (List.mem_reverse.mp (List.mem_of_find?_eq_some hs))
  obtain ⟨n, hn⟩ := List.mem_iff_getElem?.mp hb
  -- the rule that is found is listed by the analyzer in charge, and it lists no other
  by_cases hne : n = place
  · subst hne
    obtain rfl := Option.some.inj (h.analyzer.symm.trans hn)
    rw [hchecks.rules, List.mem_singleton] at hsb
    rw [hs, hsb]
  · exact absurd hid ((h.others n b hne hn).rules s hsb)

/-- What is reported of the rule is what is found on one element. -/
theorem exists_of_mem_outcome (hdue : e.Due c call) (hi : e.invocation? c call = some i)
    {cancelled : Bool} (hd : d ∈ (i.outcome cancelled).reports) (hid : d.ruleId = r.id) :
    ∃ k u x, call = .node place 0 k x.id ∧ (e.unitsOf c)[k]? = some u ∧ Below u.tree.top x ∧
      x.kind = kind ∧ (i.outcome cancelled).reports = check u x := by
  cases hdue with
  | @node n j k b u x action hindex _ hu _ hx hj =>
    simp only [invocation?, hindex, hu, hj, Tree.element?_of_below_top hx, Option.bind_eq_bind,
      Option.bind_some, Option.some.injEq] at hi
    subst hi
    simp only at hd ⊢
    by_cases hreports : b.reportsOn u = true
    · rw [if_pos hreports] at hd ⊢
      by_cases hne : n = place
      · subst hne
        obtain rfl := Option.some.inj (h.analyzer.symm.trans hindex)
        rw [hchecks.actions] at hj
        cases j with
        | zero =>
          obtain ⟨hkind, rfl⟩ := Prod.mk.inj (Option.some.inj hj)
          exact ⟨k, u, x, rfl, hu, hx, hkind.symm, rfl⟩
        | succ j => cases hj
      · exact absurd hid ((h.others n b hne hindex).onNode _ _ (List.mem_of_getElem? hj) _ d hd)
    · rw [if_neg hreports] at hd
      cases hd
  | @symbol n j b u s node action hindex _ _ _ hs _ hj =>
    simp only [invocation?, hindex, hs, hj, Option.bind_eq_bind, Option.bind_some,
      Option.some.injEq] at hi
    subst hi
    obtain ⟨report, hreport, rfl⟩ := exists_of_mem_keptReports hd
    by_cases hne : n = place
    · -- the analyzer in charge does not look at symbols
      subst hne
      obtain rfl := Option.some.inj (h.analyzer.symm.trans hindex)
      rw [hchecks.actions] at hj
      cases hj
    · exact absurd hid
        ((h.others n b hne hindex).onSymbol _ _ (List.mem_of_getElem? hj) _ report hreport)

/-- Every diagnostic of the rule, be the analysis stopped or not, is found on one element. -/
theorem exists_of_mem_diagnostics (hd : d ∈ (e.analyze c).diagnostics) (hid : d.ruleId = r.id) :
    ∃ u ∈ e.unitsOf c, ∃ x, Below u.tree.top x ∧ x.kind = kind ∧
      ∃ d₀ ∈ check u x, ∃ severity, d = { d₀ with severity } := by
  have hselected : d ∈ (e.run c).reported.filterMap e.select? := List.mem_mergeSort.mp hd
  obtain ⟨d₀, hd₀, hselect⟩ := List.mem_filterMap.mp hselected
  obtain ⟨severity, rfl⟩ := exists_of_select?_eq_some hselect
  obtain ⟨call, i, cancelled, hdue, hi, hmem⟩ := reports_due e c d₀ hd₀
  obtain ⟨k, u, x, -, hu, hx, hkind, hreports⟩ :=
    h.exists_of_mem_outcome hchecks hdue hi hmem hid
  exact ⟨u, List.mem_of_getElem? hu, x, hx, hkind, d₀, hreports ▸ hmem, severity, rfl⟩

end InCharge

/-! ### An analysis that is not stopped -/

/-- Calls none of which asks for a stop report what they report before a stop. -/
theorem reported_foldl_perform_of_quiet {p : Progress} {calls : List Call}
    (hp : p.cancelled = false) (h : ∀ call ∈ calls, e.stops c call = false) :
    (calls.foldl (e.perform c) p).reported = p.reported ++ calls.flatMap (e.reportsOf c) := by
  induction calls generalizing p with
  | nil => exact (List.append_nil _).symm
  | cons call calls ih =>
    have hquiet : (e.perform c p call).cancelled = false := by
      rw [cancelled_perform, hp, h call List.mem_cons_self, Bool.false_or]
    have hcall : (e.perform c p call).reported = p.reported ++ e.reportsOf c call := by
      rw [perform, reportsOf, hp]
      cases e.invocation? c call with
      | none => exact (List.append_nil _).symm
      | some i => rfl
    rw [List.foldl_cons, ih hquiet fun call hmem => h call (List.mem_cons_of_mem _ hmem), hcall,
      List.flatMap_cons, List.append_assoc]

/-- An analysis that is not stopped reports what its calls report. -/
theorem reported_run_of_not_cancelled (h : (e.run c).cancelled = false) :
    (e.run c).reported = (e.steps c).flatten.flatMap (e.reportsOf c) := by
  rw [run_eq_foldl_steps, cancelled_foldl_step, Bool.or_eq_false_iff, List.any_eq_false] at h
  obtain ⟨hrunning, hstops⟩ := h
  have hstops : ∀ call ∈ (e.steps c).flatten, e.stops c call = false :=
    fun call hcall => eq_false_of_ne_true (hstops call hcall)
  rw [run_eq_foldl_perform hrunning hstops, reported_foldl_perform_of_quiet rfl hstops]
  rfl

theorem nodup_flatten_steps (e : Engine) (c : Compilation) : (e.steps c).flatten.Nodup := by
  refine (scheduled_steps e c).pairwise.imp ?_
  rintro call _ horder rfl
  exact not_inOrder_self call horder

/-- What a call finds of a rule, where the rule is shown. -/
def findings (e : Engine) (c : Compilation) (r : Rule) : Call → List Finding
  | .node i j k n =>
    ((e.reportsOf c (.node i j k n)).filter fun d =>
      d.ruleId == r.id && e.config.shows r d.location.file).map fun d => ⟨k, n, d⟩
  | .symbol .. => []

theorem exists_invocation_of_mem_reportsOf (hd : d ∈ e.reportsOf c call) :
    ∃ i, e.invocation? c call = some i ∧ (i.outcome false).reports = e.reportsOf c call := by
  rw [reportsOf] at hd ⊢
  cases hi : e.invocation? c call with
  | none =>
    rw [hi] at hd
    cases hd
  | some i => exact ⟨i, rfl, rfl⟩

namespace InCharge

variable {place : Nat} (h : e.InCharge c r a place) (hchecks : a.Checks c r kind check)
include h hchecks

theorem exists_of_mem_reportsOf (hdue : e.Due c call) (hd : d ∈ e.reportsOf c call)
    (hid : d.ruleId = r.id) :
    ∃ k u x, call = .node place 0 k x.id ∧ (e.unitsOf c)[k]? = some u ∧ Below u.tree.top x ∧
      x.kind = kind ∧ e.reportsOf c call = check u x := by
  obtain ⟨i, hi, hreports⟩ := exists_invocation_of_mem_reportsOf hd
  rw [← hreports] at hd ⊢
  exact h.exists_of_mem_outcome hchecks hdue hi hd hid

/-- A call has one finding at most, on the element that the call is made on. -/
theorem exists_of_mem_findings {f : Finding} (hdue : e.Due c call) (hf : f ∈ e.findings c r call) :
    call = .node place 0 f.unit f.node ∧ e.findings c r call = [f] ∧ ∃ u x,
      (e.unitsOf c)[f.unit]? = some u ∧ e.config.shows r u.path = true ∧ Below u.tree.top x ∧
        x.id = f.node ∧ x.kind = kind ∧ f.diagnostic ∈ check u x := by
  cases call with
  | symbol => cases hf
  | node i j k n =>
    have hlength : (e.findings c r (.node i j k n)).length
        ≤ (e.reportsOf c (.node i j k n)).length := by
      rw [findings, List.length_map]
      exact List.length_filter_le _ _
    obtain ⟨d, hfilter, rfl⟩ := List.mem_map.mp hf
    obtain ⟨hd, hshown⟩ := List.mem_filter.mp hfilter
    rw [Bool.and_eq_true, beq_iff_eq] at hshown
    obtain ⟨k', u, x, hcall, hu, hx, hkind, hreports⟩ :=
      h.exists_of_mem_reportsOf hchecks hdue hd hshown.1
    rw [hreports] at hd hlength
    obtain ⟨rfl, rfl, rfl, rfl⟩ := Call.node.inj hcall
    obtain ⟨g, hg⟩ := List.length_eq_one_iff.mp
      (Nat.le_antisymm (hlength.trans (hchecks.one u x)) (List.length_pos_of_mem hf))
    rw [hg, List.mem_singleton] at hf
    obtain ⟨span, payload, args, rfl⟩ := hchecks.own u x d hd
    exact ⟨rfl, hf ▸ hg, u, x, hu, hshown.2, hx, rfl, hkind, hd⟩

/-- What the calls find is what there is to find on elements. -/
theorem mem_findings_iff {f : Finding} :
    f ∈ (e.steps c).flatten.flatMap (e.findings c r) ↔ ∃ u x, (e.unitsOf c)[f.unit]? = some u ∧
      e.config.shows r u.path = true ∧ Below u.tree.top x ∧ x.id = f.node ∧ x.kind = kind ∧
        f.diagnostic ∈ check u x := by
  rw [List.mem_flatMap]
  simp only [mem_steps_iff]
  constructor
  · rintro ⟨call, hdue, hf⟩
    exact (h.exists_of_mem_findings hchecks hdue hf).2.2
  · obtain ⟨k, n, d⟩ := f
    rintro ⟨u, x, hu, hshown, hx, rfl, rfl, hd⟩
    have henabled : a.rules.any e.config.isEnabled = true := by
      rw [Config.shows, Bool.and_eq_true] at hshown
      rw [hchecks.rules, List.any_cons, hshown.1, Bool.true_or]
    have hj : (a.actionsFor c).onNode[0]?
        = some (x.kind, fun ctx => { reports := check ctx.unit ctx.node }) := by
      rw [hchecks.actions]
      rfl
    have hruns : u.generated = false ∨ a.policy.analyze = true := by
      rw [hchecks.policy]
      exact .inr rfl
    have hreportsOn : a.reportsOn u = true := by
      rw [Analyzer.reportsOn, hchecks.policy, Bool.or_true]
    have hreports : e.reportsOf c (.node place 0 k x.id) = check u x := by
      simp only [reportsOf, invocation?, h.analyzer, hu, hj, Tree.element?_of_below_top hx,
        Option.bind_eq_bind, Option.bind_some, hreportsOn, if_true]
    refine ⟨.node place 0 k x.id, .node h.analyzer henabled hu hruns hx hj, ?_⟩
    obtain ⟨span, payload, args, rfl⟩ := hchecks.own u x d hd
    refine List.mem_map_of_mem (List.mem_filter.mpr ⟨hreports ▸ hd, ?_⟩)
    rw [Bool.and_eq_true, beq_iff_eq]
    exact ⟨rfl, hshown⟩

/-- No two findings are on one element. -/
theorem nodup_findings :
    (((e.steps c).flatten.flatMap (e.findings c r)).map fun f => (f.unit, f.node)).Nodup := by
  rw [List.map_flatMap, List.nodup_flatMap]
  constructor
  · intro call hcall
    rcases hfindings : e.findings c r call with - | ⟨f, fs⟩
    · exact List.nodup_nil
    · have hone := (h.exists_of_mem_findings hchecks (mem_steps_iff.mp hcall)
        (hfindings ▸ List.mem_cons_self)).2.1
      rw [← hfindings, hone]
      exact List.nodup_singleton _
  · refine (nodup_flatten_steps e c).imp_of_mem ?_
    intro call call' hcall hcall' hne
    refine List.disjoint_left.mpr fun key hkey hkey' => ?_
    obtain ⟨f, hf, rfl⟩ := List.mem_map.mp hkey
    obtain ⟨f', hf', heq⟩ := List.mem_map.mp hkey'
    obtain ⟨hunit, hnode⟩ := Prod.mk.inj heq
    -- the element tells the call
    have hplace := (h.exists_of_mem_findings hchecks (mem_steps_iff.mp hcall) hf).1
    have hplace' := (h.exists_of_mem_findings hchecks (mem_steps_iff.mp hcall') hf').1
    rw [hunit, hnode, ← hplace] at hplace'
    exact hne hplace'.symm

/-- What is shown of the reports of a call. -/
theorem filter_select_reportsOf (hdue : e.Due c call) :
    ((e.reportsOf c call).filterMap e.select?).filter (·.ruleId == r.id)
      = (e.findings c r call).map (Finding.shown e r) := by
  have hselect : ∀ d ∈ e.reportsOf c call, (e.select? d).filter (·.ruleId == r.id)
      = if d.ruleId == r.id && e.config.shows r d.location.file then
        some { d with severity := (e.config.severity? r).getD r.defaultSeverity } else none := by
    intro d hd
    by_cases hid : d.ruleId = r.id
    · obtain ⟨k, u, x, -, -, -, -, hreports⟩ := h.exists_of_mem_reportsOf hchecks hdue hd hid
      obtain ⟨span, payload, args, rfl⟩ := hchecks.own u x d (hreports ▸ hd)
      have hrule : e.rule? (u.diagnostic r span payload args).ruleId = some r := h.rule?_eq hchecks
      rw [select?_of_rule?_eq_some hrule, hid, beq_self_eq_true, Bool.true_and]
      split
      · exact if_pos (beq_self_eq_true r.id)
      · rfl
    · rw [beq_eq_false_iff_ne.mpr hid, Bool.false_and, if_neg Bool.false_ne_true,
        Option.filter_eq_none_iff]
      intro d' hd'
      obtain ⟨severity, rfl⟩ := exists_of_select?_eq_some hd'
      exact ne_true_of_eq_false (beq_eq_false_iff_ne.mpr hid)
  rw [List.filter_filterMap, List.filterMap_congr hselect]
  cases call with
  | node i j k n =>
    rw [findings, List.map_map, ← List.filterMap_eq_map, List.filterMap_filter]
    rfl
  | symbol i j n =>
    -- no call on a symbol reports the rule
    refine List.filterMap_eq_nil_iff.mpr fun d hd => if_neg ?_
    rw [Bool.and_eq_true, beq_iff_eq]
    rintro ⟨hid, -⟩
    obtain ⟨k, u, x, hcall, -⟩ := h.exists_of_mem_reportsOf hchecks hdue hd hid
    cases hcall

/-- **An analysis shows what there is to find.**  An analysis that is not stopped, with an analyzer
in charge of a rule that checks the elements of a kind, delivers what the check finds. -/
theorem exists_delivers {Finds : AnalysisUnit → Element → Diagnostic → Prop}
    (hfinds : ∀ u ∈ e.unitsOf c, ∀ x, Below u.tree.top x → ∀ d,
      Finds u x d ↔ x.kind = kind ∧ d ∈ check u x)
    (hrunning : (e.analyze c).cancelled = false) : ∃ found, e.Delivers c r Finds found := by
  refine ⟨(e.steps c).flatten.flatMap (e.findings c r), h.nodup_findings hchecks, ?_, ?_⟩
  · intro f
    rw [h.mem_findings_iff hchecks]
    refine exists₂_congr fun u x => ?_
    constructor
    · rintro ⟨hu, hshown, hx, hid, hfound⟩
      exact ⟨hu, hshown, hx, hid, (hfinds u (List.mem_of_getElem? hu) x hx _).mpr hfound⟩
    · rintro ⟨hu, hshown, hx, hid, hfound⟩
      exact ⟨hu, hshown, hx, hid, (hfinds u (List.mem_of_getElem? hu) x hx _).mp hfound⟩
  · have hreported := reported_run_of_not_cancelled (e := e) (c := c) hrunning
    have hselected : ((e.run c).reported.filterMap e.select?).filter (·.ruleId == r.id)
        = ((e.steps c).flatten.flatMap (e.findings c r)).map (Finding.shown e r) := by
      rw [hreported, List.filterMap_flatMap, List.filter_flatMap, List.map_flatMap]
      apply List.flatMap_congr
      intro call hcall
      exact h.filter_select_reportsOf hchecks (mem_steps_iff.mp hcall)
    rw [← hselected]
    exact (List.mergeSort_perm _ _).filter _

end InCharge

end Engine

end TreeLint
