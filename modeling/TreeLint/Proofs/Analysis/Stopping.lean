/-
TreeLint/Proofs/Analysis/Stopping.lean

What a request to stop cuts off.

Any action may ask for a stop.  The request is looked at before each step, so
the step in which it is made is completed and no further one is begun: the
calls that are made are a beginning of all calls, and it ends between two
elements, or between two symbols of an analyzer (`Engine.Cut`).

What is cut off shows next to the same engine with analyzers that report the
same and never ask for a stop (`Engine.withoutStops`).  It takes the same steps
(`Engine.steps_withoutStops`).  As long as no action looks at whether a stop was
requested, a call reports the same in both runs, and so one of them reports a
beginning of what the other one does.
-/
import TreeLint.Proofs.Analysis.Dispatch

namespace TreeLint

open Element

/-! ### Actions and stops -/

/-- No action of the analyzer looks at whether a stop was requested. -/
structure Analyzer.Oblivious (a : Analyzer) (c : Compilation) : Prop where
  onNode : ∀ k action, (k, action) ∈ (a.actionsFor c).onNode → ∀ u x,
    action ⟨u, x, true⟩ = action ⟨u, x, false⟩
  onSymbol : ∀ k action, (k, action) ∈ (a.actionsFor c).onSymbol → ∀ s symbols sites,
    action ⟨s, symbols, sites, true⟩ = action ⟨s, symbols, sites, false⟩

/-- Actions that report the same and never ask for a stop. -/
def Actions.withoutStops (a : Actions) : Actions where
  onNode := a.onNode.map fun r => (r.1, fun ctx => { r.2 ctx with cancel := false })
  onSymbol := a.onSymbol.map fun r => (r.1, fun ctx => { r.2 ctx with cancel := false })

/-- An analyzer that reports the same and never asks for a stop. -/
def Analyzer.withoutStops (a : Analyzer) : Analyzer :=
  { a with
    actions := a.actions.withoutStops
    atStart := a.atStart.map fun start c => (start c).withoutStops }

/-- An analyzer whose only action looks at nothing but an element and its unit. -/
theorem Analyzer.oblivious_of_actionsFor_eq {a : Analyzer} {c : Compilation} {kind : Kind}
    {f : AnalysisUnit → Element → Outcome Diagnostic}
    (h : a.actionsFor c = { onNode := [(kind, fun ctx => f ctx.unit ctx.node)] }) :
    a.Oblivious c where
  onNode k action haction u x := by
    rw [h, List.mem_singleton] at haction
    obtain ⟨rfl, rfl⟩ := Prod.mk.inj haction
    rfl
  onSymbol k action haction := by
    rw [h] at haction
    cases haction

theorem Analyzer.actionsFor_withoutStops (a : Analyzer) (c : Compilation) :
    a.withoutStops.actionsFor c = (a.actionsFor c).withoutStops :=
  a.actionsFor_adapt (fun action ctx => { action ctx with cancel := false })
    (fun action ctx => { action ctx with cancel := false }) c

namespace Engine

/-- The engine with analyzers that never ask for a stop. -/
def withoutStops (e : Engine) : Engine :=
  { e with analyzers := e.analyzers.map Analyzer.withoutStops, cancelled := false }

/-- The same call without a request to stop. -/
def Invocation.withoutStops (i : Invocation) : Invocation :=
  { i with outcome := fun cancelled => { i.outcome cancelled with cancel := false } }

/-- What is kept of the reports of a call. -/
def reportsOf (e : Engine) (c : Compilation) (call : Call) : List Diagnostic :=
  match e.invocation? c call with
  | none => []
  | some i => (i.outcome false).reports

/-- The engine after an analysis: a request to stop stays. -/
def next (e : Engine) (c : Compilation) : Engine :=
  { e with cancelled := (e.analyze c).cancelled }

variable {e : Engine} {c : Compilation}

/-! ### The same steps -/

theorem withoutStops_eq (e : Engine) :
    e.withoutStops
      = { e.adapt (fun _ action ctx => { action ctx with cancel := false })
            (fun _ action ctx => { action ctx with cancel := false }) with cancelled := false } :=
  rfl

theorem steps_withoutStops (e : Engine) (c : Compilation) :
    e.withoutStops.steps c = e.steps c := by
  rw [withoutStops_eq]
  exact steps_adapt _ _ e c

/-- The same action is behind a call, but for its stops. -/
theorem invocation?_withoutStops (call : Call) :
    e.withoutStops.invocation? c call = (e.invocation? c call).map Invocation.withoutStops := by
  rw [withoutStops_eq]
  exact invocation?_adapt (fun _ _ _ _ _ _ _ => rfl) (fun _ _ _ _ _ _ => rfl) call

theorem stops_withoutStops (call : Call) : e.withoutStops.stops c call = false := by
  rw [stops, invocation?_withoutStops]
  cases e.invocation? c call <;> rfl

theorem reportsOf_withoutStops (call : Call) :
    e.withoutStops.reportsOf c call = e.reportsOf c call := by
  rw [reportsOf, reportsOf, invocation?_withoutStops]
  cases e.invocation? c call <;> rfl

/-! ### The same reports -/

theorem oblivious_withoutStops (h : ∀ a ∈ e.analyzers, a.Oblivious c) :
    ∀ a ∈ e.withoutStops.analyzers, a.Oblivious c := by
  intro a' ha'
  obtain ⟨a, ha, rfl⟩ := List.mem_map.mp ha'
  constructor
  · intro k action haction u x
    rw [Analyzer.actionsFor_withoutStops] at haction
    obtain ⟨⟨k', action'⟩, hmem, heq⟩ := List.mem_map.mp haction
    obtain ⟨rfl, rfl⟩ := Prod.mk.inj heq
    show Outcome.mk (action' ⟨u, x, true⟩).reports false = ⟨(action' ⟨u, x, false⟩).reports, false⟩
    rw [(h a ha).onNode k' action' hmem u x]
  · intro k action haction s symbols sites
    rw [Analyzer.actionsFor_withoutStops] at haction
    obtain ⟨⟨k', action'⟩, hmem, heq⟩ := List.mem_map.mp haction
    obtain ⟨rfl, rfl⟩ := Prod.mk.inj heq
    show Outcome.mk (action' ⟨s, symbols, sites, true⟩).reports false
      = ⟨(action' ⟨s, symbols, sites, false⟩).reports, false⟩
    rw [(h a ha).onSymbol k' action' hmem s symbols sites]

/-- What a call comes to does not depend on requests to stop. -/
theorem outcome_eq_of_oblivious (h : ∀ a ∈ e.analyzers, a.Oblivious c) {call : Call}
    {i : Invocation} (hi : e.invocation? c call = some i) (cancelled : Bool) :
    i.outcome cancelled = i.outcome false := by
  cases cancelled with
  | false => rfl
  | true =>
    cases call with
    | node i j k n =>
      simp only [invocation?, Option.bind_eq_bind, Option.bind_eq_some_iff] at hi
      obtain ⟨a, ha, u, -, ⟨kind, action⟩, hj, x, -, hi⟩ := hi
      obtain rfl := Option.some.inj hi
      have haction := (h a (List.mem_of_getElem? ha)).onNode kind action (List.mem_of_getElem? hj)
      simp only [haction]
    | symbol i j n =>
      simp only [invocation?, Option.bind_eq_bind, Option.bind_eq_some_iff] at hi
      obtain ⟨a, ha, ⟨kind, action⟩, hj, s, -, hi⟩ := hi
      obtain rfl := Option.some.inj hi
      have haction := (h a (List.mem_of_getElem? ha)).onSymbol kind action (List.mem_of_getElem? hj)
      simp only [haction]

theorem reported_foldl_perform (h : ∀ a ∈ e.analyzers, a.Oblivious c) (p : Progress)
    (calls : List Call) :
    (calls.foldl (e.perform c) p).reported = p.reported ++ calls.flatMap (e.reportsOf c) := by
  induction calls generalizing p with
  | nil => exact (List.append_nil _).symm
  | cons call calls ih =>
    have hcall : (e.perform c p call).reported = p.reported ++ e.reportsOf c call := by
      rw [perform, reportsOf]
      cases hi : e.invocation? c call with
      | none => exact (List.append_nil _).symm
      | some i =>
        show p.reported ++ (i.outcome p.cancelled).reports = _
        rw [outcome_eq_of_oblivious h hi]
    rw [List.foldl_cons, ih, hcall, List.flatMap_cons, List.append_assoc]

/-- What the engine reports if no request to stop is made. -/
theorem reported_run_withoutStops (h : ∀ a ∈ e.analyzers, a.Oblivious c) :
    (e.withoutStops.run c).reported = (e.steps c).flatten.flatMap (e.reportsOf c) := by
  rw [run_eq_foldl_perform rfl fun call _ => stops_withoutStops call,
    reported_foldl_perform (oblivious_withoutStops h), steps_withoutStops]
  exact List.flatMap_congr fun call _ => reportsOf_withoutStops call

/-! ### Places -/

/-- Where a call is made: at an element of a unit, or for an analyzer at a symbol. -/
inductive Place where
  | node (unit : Nat) (id : NodeId)
  | symbol (analyzer : Nat) (id : SymbolId)
  deriving DecidableEq, Repr

/-- The place of a call. -/
def Call.place : Call → Place
  | .node _ _ k n => .node k n
  | .symbol i _ s => .symbol i s

/-- No call of one step is made at the place of a call of the other. -/
def Apart (calls calls' : List Call) : Prop :=
  ∀ call ∈ calls, ∀ call' ∈ calls', call.place ≠ call'.place

theorem place_of_mem_nodeCalls {as : List (Prepared × Nat)} {k : Nat} {x : Element} {call : Call}
    (h : call ∈ as.flatMap (nodeCalls k x)) : call.place = .node k x.id := by
  obtain ⟨a, -, hcall⟩ := List.mem_flatMap.mp h
  obtain ⟨j, action, -, rfl⟩ := mem_nodeCalls_iff.mp hcall
  rfl

theorem place_of_mem_symbolCalls {a : Prepared × Nat} {s : Symbol} {call : Call}
    (h : call ∈ e.symbolCalls c a s) : call.place = .symbol a.2 s.id := by
  obtain ⟨-, j, action, -, rfl⟩ := mem_symbolCalls_iff.mp h
  rfl

/-- All calls of a step are made at one place. -/
theorem exists_place {calls : List Call} (h : calls ∈ e.steps c) :
    ∃ place, ∀ call ∈ calls, call.place = place := by
  have hunit : ∀ {as : List (Prepared × Nat)} {us : List (AnalysisUnit × Nat)},
      calls ∈ us.flatMap (unitSteps as) → ∃ place, ∀ call ∈ calls, call.place = place := by
    intro as us hcalls
    obtain ⟨u, -, hcalls⟩ := List.mem_flatMap.mp hcalls
    obtain ⟨x, -, rfl⟩ := List.mem_map.mp hcalls
    exact ⟨_, fun _ => place_of_mem_nodeCalls⟩
  rcases List.mem_append.mp h with h | h
  · exact hunit h
  · rcases List.mem_append.mp h with h | h
    · exact hunit h
    · obtain ⟨a, -, hcalls⟩ := List.mem_flatMap.mp h
      obtain ⟨s, -, rfl⟩ := List.mem_map.mp hcalls
      exact ⟨_, fun _ => place_of_mem_symbolCalls⟩

theorem pairwise_apart_unitSteps (as : List (Prepared × Nat)) :
    ((e.unitsOf c).zipIdx.flatMap (unitSteps as)).Pairwise Apart := by
  rw [List.pairwise_flatMap]
  constructor
  · intro u _
    rw [unitSteps, List.pairwise_map]
    refine (List.pairwise_map.mp u.1.tree.nodup_preorder).imp ?_
    intro x y hne call hcall call' hcall'
    rw [place_of_mem_nodeCalls hcall, place_of_mem_nodeCalls hcall']
    exact fun heq => hne (Place.node.inj heq).2
  · refine (pairwise_zipIdx _).imp ?_
    intro u v hlt calls hcalls calls' hcalls' call hcall call' hcall'
    obtain ⟨x, -, rfl⟩ := List.mem_map.mp hcalls
    obtain ⟨y, -, rfl⟩ := List.mem_map.mp hcalls'
    rw [place_of_mem_nodeCalls hcall, place_of_mem_nodeCalls hcall']
    exact fun heq => hlt.ne (Place.node.inj heq).1

theorem pairwise_apart_symbolSteps :
    ((e.participants c).flatMap (e.symbolSteps c)).Pairwise Apart := by
  rw [List.pairwise_flatMap]
  constructor
  · intro a _
    rw [symbolSteps, List.pairwise_map]
    refine c.symbols.pairwise_id.imp ?_
    intro s s' hlt call hcall call' hcall'
    rw [place_of_mem_symbolCalls hcall, place_of_mem_symbolCalls hcall']
    exact fun heq => hlt.ne (Place.symbol.inj heq).2
  · refine (pairwise_participants e c).imp ?_
    intro a a' hlt calls hcalls calls' hcalls' call hcall call' hcall'
    obtain ⟨s, -, rfl⟩ := List.mem_map.mp hcalls
    obtain ⟨s', -, rfl⟩ := List.mem_map.mp hcalls'
    rw [place_of_mem_symbolCalls hcall, place_of_mem_symbolCalls hcall']
    exact fun heq => hlt.ne (Place.symbol.inj heq).1

/-- Without a concurrent pass, no place is come to twice. -/
theorem pairwise_apart_steps (h : e.config.engine.parallel = false) :
    (e.steps c).Pairwise Apart := by
  have hnone : (e.participants c).filter e.concurrently = [] := by
    rw [List.filter_eq_nil_iff]
    intro a _
    simp [concurrently, h]
  have hempty : ∀ calls ∈ (e.unitsOf c).zipIdx.flatMap
      (unitSteps ((e.participants c).filter e.concurrently)), calls = [] := by
    rw [hnone]
    intro calls hcalls
    obtain ⟨u, -, hcalls⟩ := List.mem_flatMap.mp hcalls
    obtain ⟨x, -, rfl⟩ := List.mem_map.mp hcalls
    rfl
  rw [steps, laterSteps, List.pairwise_append, List.pairwise_append]
  refine ⟨pairwise_apart_unitSteps _, ⟨pairwise_apart_unitSteps _, pairwise_apart_symbolSteps, ?_⟩,
    ?_⟩
  · intro calls hcalls calls' hcalls' call hcall call' hcall'
    obtain ⟨u, -, hcalls⟩ := List.mem_flatMap.mp hcalls
    obtain ⟨x, -, rfl⟩ := List.mem_map.mp hcalls
    obtain ⟨a, -, hcalls'⟩ := List.mem_flatMap.mp hcalls'
    obtain ⟨s, -, rfl⟩ := List.mem_map.mp hcalls'
    rw [place_of_mem_nodeCalls hcall, place_of_mem_symbolCalls hcall']
    exact Place.noConfusion
  · intro calls hcalls calls' _ call hcall
    rw [hempty calls hcalls] at hcall
    cases hcall

/-! ### Where a run is cut off -/

/-- The calls that are made, and those that are not: either no call asks for a stop, or the first
one that does is made at some place, all calls at this place are made, and then no other one. -/
inductive Cut (e : Engine) (c : Compilation) : List Call → List Call → Prop
  | never {ran : List Call} (quiet : ∀ call ∈ ran, e.stops c call = false) : Cut e c ran []
  | during {earlier here rest : List Call} {place : Place}
      (quiet : ∀ call ∈ earlier, e.stops c call = false)
      (stop : ∃ call ∈ here, e.stops c call = true) (there : ∀ call ∈ here, call.place = place)
      (elsewhere : ∀ call ∈ earlier ++ rest, call.place ≠ place) : Cut e c (earlier ++ here) rest

theorem foldl_step_of_cancelled {p : Progress} (hp : p.cancelled = true)
    (steps : List (List Call)) : steps.foldl (e.step c) p = p := by
  induction steps with
  | nil => rfl
  | cons calls steps ih => rw [List.foldl_cons, step, if_pos hp, ih]

/-- Steps through different places make the calls up to the first place where one asks for a
stop. -/
theorem exists_cut {steps : List (List Call)} (hplace : ∀ calls ∈ steps, ∃ place, ∀ call ∈ calls,
      call.place = place) (hapart : steps.Pairwise Apart) {p : Progress}
    (hp : p.cancelled = false) : ∃ ran rest, steps.flatten = ran ++ rest ∧
      steps.foldl (e.step c) p = ran.foldl (e.perform c) p ∧ e.Cut c ran rest := by
  induction steps generalizing p with
  | nil => exact ⟨[], [], rfl, rfl, .never (List.forall_mem_nil _)⟩
  | cons calls steps ih =>
    obtain ⟨hcalls, hsteps⟩ := List.pairwise_cons.mp hapart
    have hstep : e.step c p calls = calls.foldl (e.perform c) p := by
      rw [step, hp, if_neg Bool.false_ne_true]
    have hcancelled := cancelled_foldl_perform (e := e) (c := c) p calls
    rw [hp, Bool.false_or] at hcancelled
    have helsewhere : ∀ call ∈ calls, ∀ call' ∈ steps.flatten, call.place ≠ call'.place := by
      intro call hcall call' hcall'
      obtain ⟨calls', hcalls', hcall'⟩ := List.mem_flatten.mp hcall'
      exact hcalls calls' hcalls' call hcall call' hcall'
    cases hany : calls.any (e.stops c) with
    | true =>
      -- the request is made in this step, and the steps after it do nothing
      obtain ⟨place, hhere⟩ := hplace calls List.mem_cons_self
      obtain ⟨call, hcall, hstop⟩ := List.any_eq_true.mp hany
      refine ⟨[] ++ calls, steps.flatten, rfl, ?_,
        .during (List.forall_mem_nil _) ⟨call, hcall, hstop⟩ hhere ?_⟩
      · rw [List.foldl_cons, hstep, foldl_step_of_cancelled (hcancelled.trans hany)]
        rfl
      · intro call' hcall' heq
        exact helsewhere call hcall call' hcall' ((hhere call hcall).trans heq.symm)
    | false =>
      -- the cut is in the steps after this one, and none of them comes back to its place
      obtain ⟨ran, rest, hflatten, hrun, hcut⟩ :=
        ih (fun calls' hcalls' => hplace calls' (List.mem_cons_of_mem _ hcalls')) hsteps
          (hcancelled.trans hany)
      have hquiet : ∀ call ∈ calls, e.stops c call = false := fun call hcall =>
        eq_false_of_ne_true (List.any_eq_false.mp hany call hcall)
      refine ⟨calls ++ ran, rest, ?_, ?_, ?_⟩
      · rw [List.flatten_cons, hflatten, List.append_assoc]
      · rw [List.foldl_cons, hstep, hrun, List.foldl_append]
      · cases hcut with
        | never hran => exact .never (List.forall_mem_append.mpr ⟨hquiet, hran⟩)
        | @during earlier here _ place hearlier hstop hhere hother =>
          rw [← List.append_assoc]
          refine .during (List.forall_mem_append.mpr ⟨hquiet, hearlier⟩) hstop hhere ?_
          rw [List.append_assoc, List.forall_mem_append]
          refine ⟨?_, hother⟩
          intro call hcall heq
          obtain ⟨call', hcall', -⟩ := hstop
          have hmem : call' ∈ steps.flatten := by
            rw [hflatten]
            exact List.mem_append_left _ (List.mem_append_right _ hcall')
          exact helsewhere call hcall call' hmem (heq.trans (hhere call' hcall').symm)

/-! ### What is shown -/

theorem select?_withoutStops (e : Engine) : e.withoutStops.select? = e.select? := by
  rw [withoutStops_eq]
  exact select?_adapt _ _ e

theorem finish_withoutStops (e : Engine) (ds : List Diagnostic) :
    e.withoutStops.finish ds = e.finish ds := by
  rw [finish, finish, select?_withoutStops]

/-- Of fewer reports no more is shown. -/
theorem subperm_finish {ds ds' : List Diagnostic} (h : ds.Sublist ds') :
    (e.finish ds).Subperm (e.finish ds') := by
  have hselected := (h.filterMap e.select?).subperm
  exact (List.mergeSort_perm _ _).subperm.trans
    (hselected.trans (List.mergeSort_perm _ _).symm.subperm)

/-! ### After a stop -/

/-- An engine that was stopped shows nothing. -/
theorem analyze_of_cancelled (h : e.cancelled = true) (c : Compilation) :
    (e.analyze c).diagnostics = [] ∧ (e.analyze c).cancelled = true := by
  have hrun : e.run c = { cancelled := true } := by
    rw [run_eq_foldl_steps, h]
    exact foldl_step_of_cancelled rfl _
  constructor
  · show e.finish (e.run c).reported = []
    rw [hrun]
    exact List.mergeSort_nil
  · show (e.run c).cancelled = true
    rw [hrun]

theorem cancelled_foldl_next (h : e.cancelled = true) (cs : List Compilation) :
    (cs.foldl next e).cancelled = true := by
  induction cs generalizing e with
  | nil => exact h
  | cons c cs ih => exact ih (analyze_of_cancelled h c).2

/-! ### Main result -/

/-- An analysis makes the calls `ran`, and not those of `rest`, which are due as well. -/
structure CutShort (e : Engine) (c : Compilation) (ran rest : List Call) : Prop where
  due : ∀ call, call ∈ ran ++ rest ↔ e.Due c call
  made : e.run c = ran.foldl (e.perform c) { cancelled := e.cancelled }
  cut : e.cancelled = true ∧ ran = [] ∨ e.cancelled = false ∧ e.Cut c ran rest
  reported : (e.run c).reported = ran.flatMap (e.reportsOf c)
  ignored : (e.withoutStops.run c).reported = (ran ++ rest).flatMap (e.reportsOf c)
  cancelled : (e.analyze c).cancelled = true ↔
    e.cancelled = true ∨ ∃ call ∈ ran, e.stops c call = true

theorem exists_cutShort (hsequential : e.config.engine.parallel = false)
    (h : ∀ a ∈ e.analyzers, a.Oblivious c) : ∃ ran rest, e.CutShort c ran rest := by
  have hcalls : ∃ ran rest, (e.steps c).flatten = ran ++ rest ∧
      (e.steps c).foldl (e.step c) { cancelled := e.cancelled }
        = ran.foldl (e.perform c) { cancelled := e.cancelled } ∧
      (e.cancelled = true ∧ ran = [] ∨ e.cancelled = false ∧ e.Cut c ran rest) := by
    cases hcancelled : e.cancelled with
    | true =>
      exact ⟨[], (e.steps c).flatten, rfl, foldl_step_of_cancelled rfl _, .inl ⟨rfl, rfl⟩⟩
    | false =>
      obtain ⟨ran, rest, hflatten, hrun, hcut⟩ := exists_cut (fun _ => exists_place)
        (pairwise_apart_steps hsequential) (rfl : ({} : Progress).cancelled = false)
      exact ⟨ran, rest, hflatten, hrun, .inr ⟨rfl, hcut⟩⟩
  obtain ⟨ran, rest, hflatten, hrun, hcut⟩ := hcalls
  rw [← run_eq_foldl_steps] at hrun
  refine ⟨ran, rest, ?_, hrun, hcut, ?_, ?_, ?_⟩
  · intro call
    rw [← hflatten]
    exact mem_steps_iff
  · -- nothing was reported before the first call
    rw [hrun, reported_foldl_perform h]
    exact List.nil_append _
  · rw [reported_run_withoutStops h, hflatten]
  · show (e.run c).cancelled = true ↔ _
    rw [hrun, cancelled_foldl_perform, Bool.or_eq_true, List.any_eq_true]

/-- **A stop cuts an analysis short and does nothing else.**  Without a concurrent pass, and with
actions that may ask for a stop but do not look at whether one was requested, an analysis makes a
beginning of the calls that are due: none if a stop was requested before, all if none is requested,
and otherwise those up to the element, or the symbol, at which the first request is made, with all
that are due there.  So it reports a beginning of what it would report without the requests, and
shows no more than what would be shown then.  It says that it was stopped exactly if a stop was
requested before it or by a call that was made; and from then on the engine shows nothing. -/
theorem run_cutShort (e : Engine) (c : Compilation) (hsequential : e.config.engine.parallel = false)
    (hoblivious : ∀ a ∈ e.analyzers, a.Oblivious c) :
    (∃ ran rest, e.CutShort c ran rest) ∧
      (e.run c).reported <+: (e.withoutStops.run c).reported ∧
      (e.analyze c).diagnostics.Subperm (e.withoutStops.analyze c).diagnostics ∧
      ((e.analyze c).cancelled = true → ∀ (cs : List Compilation) (c' : Compilation),
        ((cs.foldl next (e.next c)).analyze c').diagnostics = [] ∧
          ((cs.foldl next (e.next c)).analyze c').cancelled = true) := by
  obtain ⟨ran, rest, hcut⟩ := exists_cutShort hsequential hoblivious
  have hprefix : (e.run c).reported <+: (e.withoutStops.run c).reported := by
    rw [hcut.reported, hcut.ignored, List.flatMap_append]
    exact List.prefix_append _ _
  refine ⟨⟨ran, rest, hcut⟩, hprefix, ?_, ?_⟩
  · show (e.finish _).Subperm (e.withoutStops.finish _)
    rw [finish_withoutStops]
    exact subperm_finish hprefix.sublist
  · intro hcancelled cs c'
    have hnext : (e.next c).cancelled = true := hcancelled
    exact analyze_of_cancelled (cancelled_foldl_next hnext cs) c'

/-- An analyzer that reports every block and then asks for a stop. -/
def blockStopper (id : String) : Analyzer :=
  let rule : Rule := { (default : Rule) with id, enabledByDefault := true }
  { name := id
    rules := [rule]
    actions :=
      { onNode := [(.block, fun ctx =>
          { reports := [ctx.unit.diagnostic rule ctx.node.span .nothing []], cancel := true })] } }

/-- An engine without a concurrent pass whose first analyzer stops at the first block. -/
def stopping : Engine where
  config := { engine := { parallel := false } }
  analyzers := [blockStopper "X1", blockReporter "X2" false]
  generatedGlobs := []

theorem oblivious_stopping (c : Compilation) : ∀ a ∈ stopping.analyzers, a.Oblivious c := by
  intro a ha
  rcases List.mem_cons.mp ha with rfl | ha
  · apply Analyzer.oblivious_of_actionsFor_eq
      (f := fun u x => ⟨[u.diagnostic _ x.span .nothing []], true⟩)
    rfl
  · obtain rfl := List.mem_singleton.mp ha
    apply Analyzer.oblivious_of_actionsFor_eq
      (f := fun u x => ⟨[u.diagnostic _ x.span .nothing []], false⟩)
    rfl

/-- Both analyzers report the first block, none the second one. -/
theorem run_cutShort_twoBlocks :
    stopping.config.engine.parallel = false ∧
      (∀ a ∈ stopping.analyzers, a.Oblivious twoBlocks) ∧
      (stopping.run twoBlocks).reported.map (·.ruleId) = ["X1", "X2"] ∧
      (stopping.withoutStops.run twoBlocks).reported.map (·.ruleId) = ["X1", "X2", "X1", "X2"] ∧
      (∃ ran rest, stopping.CutShort twoBlocks ran rest) ∧
      ((stopping.next twoBlocks).analyze twoBlocks).diagnostics = [] := by
  have hoblivious := oblivious_stopping twoBlocks
  obtain ⟨hcut, -, -, hlater⟩ := run_cutShort stopping twoBlocks rfl hoblivious
  exact ⟨rfl, hoblivious, rfl, rfl, hcut, (hlater rfl [] twoBlocks).1⟩

end Engine

end TreeLint
