/-
TreeLint/Proofs/Analysis/Calls.lean

Analyses as lists of calls.

A *call* is one action on one element or on one symbol.  It is named by places:
the place of the analyzer among all of them, that of the action among what the
analyzer registered, that of the unit in the compilation, and the number of the
node or of the symbol.  What a call comes to is known before the analysis starts,
up to the one thing that an action can see change, whether a stop was requested
(`Engine.invocation?`).

An analysis makes its calls in *steps*, one for each element of each unit and one
for each symbol and analyzer, and it looks at the request to stop before each
step and nowhere else (`Engine.run_eq_foldl_steps`).  Nothing is assumed of the
analyzers here; an analysis may be stopped anywhere.

Which calls are due does not depend on what the actions do.  So an engine with
other actions in the same places takes the same steps (`Engine.steps_adapt`).
-/
import TreeLint.Proofs.Analysis.Schedule
import TreeLint.Proofs.Tree.Table

namespace TreeLint

open Element

/-! ### Declarations -/

theorem NodeMap.mem_entries_iff {m : NodeMap} {node : NodeId} {symbol : SymbolId} :
    (node, symbol) ∈ m.entries ↔ m.get? node = some symbol := by
  obtain ⟨entries, hsorted⟩ := m
  show _ ∈ entries ↔ entries.lookup node = _
  induction entries with
  | nil => simp
  | cons entry rest ih =>
    obtain ⟨hfirst, hrest⟩ := List.pairwise_cons.mp hsorted
    rw [lookup_cons_eq, List.mem_cons, ih hrest]
    by_cases h : node = entry.1
    · -- the other entries are for later nodes
      have hnone : ¬rest.lookup node = some symbol := by
        intro hlookup
        have hlt := hfirst _ ((ih hrest).mpr hlookup)
        exact absurd h hlt.ne'
      rw [if_pos h, or_iff_left hnone, Option.some.injEq, h]
      exact ⟨fun heq => heq ▸ rfl, fun heq => heq ▸ rfl⟩
    · rw [if_neg h, or_iff_right]
      rintro rfl
      exact h rfl

namespace AnalysisUnit

/-- The nodes of a unit that declare a symbol, in the order of their numbers. -/
def declaring (u : AnalysisUnit) (id : SymbolId) : List NodeId :=
  (u.source.bindings.declared.entries.filter (·.2 == id)).map (·.1)

theorem mem_declaring_iff {u : AnalysisUnit} {id : SymbolId} {node : NodeId} :
    node ∈ u.declaring id ↔ u.source.bindings.declared.get? node = some id := by
  rw [← NodeMap.mem_entries_iff, declaring, List.mem_map]
  constructor
  · rintro ⟨⟨n, s⟩, hentry, rfl⟩
    obtain ⟨hmem, hs⟩ := List.mem_filter.mp hentry
    rwa [← eq_of_beq hs]
  · intro h
    exact ⟨(node, id), List.mem_filter.mpr ⟨h, beq_self_eq_true id⟩, rfl⟩

theorem pairwise_declaring (u : AnalysisUnit) (id : SymbolId) :
    (u.declaring id).Pairwise (· < ·) := by
  rw [declaring, List.pairwise_map]
  exact u.source.bindings.declared.sorted.filter _

end AnalysisUnit

namespace Engine

/-- Where an analyzer finds a symbol declared: in the units that it looks at, one after the other,
at the nodes that declare the symbol. -/
def sites (e : Engine) (c : Compilation) (a : Analyzer) (id : SymbolId) : List Declaration :=
  ((e.unitsOf c).filter a.runsOn).flatMap fun u => (u.declaring id).map fun node => ⟨u, node⟩

theorem filter_declarationsOf (e : Engine) (c : Compilation) (a : Analyzer) (id : SymbolId) :
    (declarationsOf (e.unitsOf c) id).filter (a.runsOn ·.unit) = e.sites c a id := by
  rw [sites]
  induction e.unitsOf c with
  | nil => rfl
  | cons u units ih =>
    have hunit : ∀ nodes : List (NodeId × SymbolId),
        (nodes.map fun entry => (⟨u, entry.1⟩ : Declaration)).filter (a.runsOn ·.unit)
          = if a.runsOn u then nodes.map fun entry => ⟨u, entry.1⟩ else [] := by
      intro nodes
      by_cases hu : a.runsOn u = true <;> simp [hu, List.filter_map, Function.comp_def]
    rw [declarationsOf, List.flatMap_cons, List.filter_append, hunit, List.filter_cons]
    rw [declarationsOf] at ih
    by_cases hu : a.runsOn u = true
    · rw [if_pos hu, if_pos hu, ih, List.flatMap_cons, AnalysisUnit.declaring, List.map_map]
      rfl
    · rw [if_neg hu, if_neg hu, ih, List.nil_append]

/-! ### Calls -/

/-- One action on one element of a unit, or on one symbol. -/
inductive Call where
  | node (analyzer registration unit : Nat) (id : NodeId)
  | symbol (analyzer registration : Nat) (id : SymbolId)
  deriving DecidableEq, Repr

/-- What a call comes to: the name of its analyzer, and what is kept of its reports and whether it
asks for a stop, given whether a stop was requested before. -/
structure Invocation where
  analyzer : String
  outcome : Bool → Outcome Diagnostic

/-- What is behind a call: an action is handed the element with its unit, or the symbol with all the
places where the analyzer finds it declared. -/
def invocation? (e : Engine) (c : Compilation) : Call → Option Invocation
  | .node i j k n => do
    let a ← e.analyzers[i]?
    let u ← (e.unitsOf c)[k]?
    let registered ← (a.actionsFor c).onNode[j]?
    let x ← u.tree.element? n
    some ⟨a.name, fun cancelled =>
      let outcome := registered.2 ⟨u, x, cancelled⟩
      ⟨if a.reportsOn u then outcome.reports else [], outcome.cancel⟩⟩
  | .symbol i j n => do
    let a ← e.analyzers[i]?
    let registered ← (a.actionsFor c).onSymbol[j]?
    let s ← c.symbols.get? n
    some ⟨a.name, fun cancelled =>
      let outcome := registered.2 ⟨s, c.symbols, e.sites c a n, cancelled⟩
      ⟨keptReports a outcome.reports, outcome.cancel⟩⟩

/-- Makes a call. -/
def perform (e : Engine) (c : Compilation) (p : Progress) (call : Call) : Progress :=
  match e.invocation? c call with
  | none => p
  | some i => p.after i.analyzer (i.outcome p.cancelled).reports (i.outcome p.cancelled).cancel

/-- Makes the calls of a step, unless a stop was requested before it. -/
def step (e : Engine) (c : Compilation) (p : Progress) (calls : List Call) : Progress :=
  if p.cancelled then p else calls.foldl (e.perform c) p

/-! ### Steps -/

/-- The analyzers that take part, each with its place among all analyzers. -/
def participants (e : Engine) (c : Compilation) : List (Prepared × Nat) :=
  (e.analyzers.zipIdx.filter fun a => a.1.rules.any e.config.isEnabled).map fun a =>
    (⟨a.1, a.1.actionsFor c⟩, a.2)

/-- Whether a participant is in the concurrent pass. -/
def concurrently (e : Engine) (a : Prepared × Nat) : Bool :=
  a.1.analyzer.concurrent && e.config.engine.parallel

/-- The calls of an analyzer on an element of the unit at place `k`. -/
def nodeCalls (k : Nat) (x : Element) (a : Prepared × Nat) : List Call :=
  (a.1.actions.onNode.zipIdx.filter (·.1.1 == x.kind)).map fun r => .node a.2 r.2 k x.id

/-- The steps of a walk through a unit: at each element all analyzers that look at the unit. -/
def unitSteps (as : List (Prepared × Nat)) (u : AnalysisUnit × Nat) : List (List Call) :=
  u.1.tree.top.preorder.map fun x =>
    (as.filter (·.1.analyzer.runsOn u.1)).flatMap (nodeCalls u.2 x)

/-- The calls of an analyzer on a symbol: none where it does not find the symbol declared. -/
def symbolCalls (e : Engine) (c : Compilation) (a : Prepared × Nat) (s : Symbol) : List Call :=
  if (e.sites c a.1.analyzer s.id).isEmpty then []
  else (a.1.actions.onSymbol.zipIdx.filter (·.1.1 == s.kind)).map fun r => .symbol a.2 r.2 s.id

/-- The steps of an analyzer through the symbols. -/
def symbolSteps (e : Engine) (c : Compilation) (a : Prepared × Nat) : List (List Call) :=
  c.symbols.symbols.toList.map (e.symbolCalls c a)

/-- The steps after the concurrent pass: a walk through all units by the other analyzers, and then
the symbols for each analyzer. -/
def laterSteps (e : Engine) (c : Compilation) : List (List Call) :=
  (e.unitsOf c).zipIdx.flatMap (unitSteps ((e.participants c).filter (!e.concurrently ·)))
    ++ (e.participants c).flatMap (e.symbolSteps c)

/-- The steps of an analysis that has the units take their turns. -/
def steps (e : Engine) (c : Compilation) : List (List Call) :=
  (e.unitsOf c).zipIdx.flatMap (unitSteps ((e.participants c).filter e.concurrently))
    ++ e.laterSteps c

variable {e : Engine} {c : Compilation}

theorem flatten_flatMap {α β : Type} (f : α → List (List β)) (xs : List α) :
    (xs.flatMap f).flatten = xs.flatMap fun x => (f x).flatten := by
  rw [List.flatMap_def, List.flatten_flatten, List.map_map, ← List.flatMap_def]
  rfl

/-- Places may be put next to what is selected. -/
theorem map_fst_filter_zipIdx {α : Type} (q : α → Bool) (xs : List α) :
    (xs.zipIdx.filter (q ·.1)).map Prod.fst = xs.filter q := by
  nth_rewrite 2 [← List.zipIdx_map_fst 0 xs]
  exact List.filter_map.symm

theorem map_fst_participants (e : Engine) (c : Compilation) :
    (e.participants c).map (·.1) = e.prepare c := by
  rw [prepare, ← map_fst_filter_zipIdx, participants, List.map_map, List.map_map]
  rfl

theorem passes_eq_participants (e : Engine) (c : Compilation) :
    e.passes c = (((e.participants c).filter e.concurrently).map (·.1),
      ((e.participants c).filter (!e.concurrently ·)).map (·.1)) := by
  rw [passes_eq, ← map_fst_participants, List.filter_map, List.filter_map]
  rfl

theorem mem_participants_iff {a : Prepared × Nat} : a ∈ e.participants c ↔
    e.analyzers[a.2]? = some a.1.analyzer ∧ a.1.analyzer.rules.any e.config.isEnabled = true ∧
      a.1.actions = a.1.analyzer.actionsFor c := by
  rw [participants, List.mem_map]
  constructor
  · rintro ⟨⟨a, i⟩, hmem, rfl⟩
    obtain ⟨hindex, hrules⟩ := List.mem_filter.mp hmem
    exact ⟨List.mk_mem_zipIdx_iff_getElem?.mp hindex, hrules, rfl⟩
  · obtain ⟨⟨a, actions⟩, i⟩ := a
    rintro ⟨hindex, hrules, hactions⟩
    obtain rfl : actions = a.actionsFor c := hactions
    exact ⟨(a, i), List.mem_filter.mpr ⟨List.mk_mem_zipIdx_iff_getElem?.mpr hindex, hrules⟩, rfl⟩

/-! ### What is called -/

variable {a : Prepared × Nat} {p : Progress}

/-- The call of a node action. -/
theorem perform_node (ha : a ∈ e.participants c) {u : AnalysisUnit} {k : Nat}
    (hu : (e.unitsOf c)[k]? = some u) {x : Element} (hx : Below u.tree.top x) {j : Nat}
    {kind : Kind} {action : NodeAction} (hj : a.1.actions.onNode[j]? = some (kind, action)) :
    e.perform c p (.node a.2 j k x.id)
      = p.after a.1.analyzer.name
          (if a.1.analyzer.reportsOn u then (action ⟨u, x, p.cancelled⟩).reports else [])
          (action ⟨u, x, p.cancelled⟩).cancel := by
  obtain ⟨hindex, -, hactions⟩ := mem_participants_iff.mp ha
  rw [hactions] at hj
  simp only [perform, invocation?, hindex, hu, hj, Tree.element?_of_below_top hx,
    Option.bind_eq_bind, Option.bind_some]

/-- The call of a symbol action. -/
theorem perform_symbol (ha : a ∈ e.participants c) {s : Symbol} (hs : c.symbols.get? s.id = some s)
    {j : Nat} {kind : SymbolKind} {action : SymbolAction}
    (hj : a.1.actions.onSymbol[j]? = some (kind, action)) :
    e.perform c p (.symbol a.2 j s.id)
      = let ctx : SymbolContext :=
          ⟨s, c.symbols, e.sites c a.1.analyzer s.id, p.cancelled⟩
        p.after a.1.analyzer.name (keptReports a.1.analyzer (action ctx).reports)
          (action ctx).cancel := by
  obtain ⟨hindex, -, hactions⟩ := mem_participants_iff.mp ha
  rw [hactions] at hj
  simp only [perform, invocation?, hindex, hs, hj, Option.bind_eq_bind, Option.bind_some]

theorem visitBy_eq_foldl (ha : a ∈ e.participants c) {u : AnalysisUnit} {k : Nat}
    (hu : (e.unitsOf c)[k]? = some u) {x : Element} (hx : Below u.tree.top x) :
    visitBy u x p a.1 = (nodeCalls k x a).foldl (e.perform c) p := by
  rw [visitBy, nodeCalls, Actions.forNode, List.foldl_map, List.foldl_map,
    ← map_fst_filter_zipIdx (fun r => r.1 == x.kind) a.1.actions.onNode, List.foldl_map]
  apply List.foldl_ext
  intro p r hr
  have hj := List.mem_zipIdx_iff_getElem?.mp (List.mem_filter.mp hr).1
  exact (perform_node ha hu hx hj).symm

theorem visitSymbol_eq_foldl (ha : a ∈ e.participants c) {s : Symbol}
    (hs : c.symbols.get? s.id = some s) :
    visitSymbol c.symbols (e.unitsOf c) a.1 p s = e.step c p (e.symbolCalls c a s) := by
  simp only [visitSymbol, filter_declarationsOf]
  rw [step, symbolCalls]
  cases hcancelled : p.cancelled
  · rw [Bool.false_or, if_neg Bool.false_ne_true]
    split
    · rfl
    · rw [Actions.forSymbol, List.foldl_map, List.foldl_map,
        ← map_fst_filter_zipIdx (fun r => r.1 == s.kind) a.1.actions.onSymbol, List.foldl_map]
      apply List.foldl_ext
      intro p r hr
      have hj := List.mem_zipIdx_iff_getElem?.mp (List.mem_filter.mp hr).1
      exact (perform_symbol ha hs hj).symm
  · rfl

/-! ### Runs in steps -/

theorem visit_eq_step {as : List (Prepared × Nat)} (has : as ⊆ e.participants c)
    {u : AnalysisUnit} {k : Nat} (hu : (e.unitsOf c)[k]? = some u) {x : Element}
    (hx : Below u.tree.top x) :
    visit u (as.map (·.1)) p x = e.step c p (as.flatMap (nodeCalls k x)) := by
  rw [visit, step, List.foldl_flatMap, List.foldl_map]
  apply if_congr Iff.rfl rfl
  apply List.foldl_ext
  intro p a ha
  exact visitBy_eq_foldl (has ha) hu hx

theorem runUnit_eq_foldl {as : List (Prepared × Nat)} (has : as ⊆ e.participants c)
    {u : AnalysisUnit × Nat} (hu : u ∈ (e.unitsOf c).zipIdx) :
    runUnit (as.map (·.1)) p u.1 = (unitSteps as u).foldl (e.step c) p := by
  rw [runUnit, unitSteps, List.foldl_map, List.filter_map]
  apply List.foldl_ext
  intro p x hx
  apply visit_eq_step
  · exact fun a ha => has (List.mem_filter.mp ha).1
  · exact List.mem_zipIdx_iff_getElem?.mp hu
  · exact mem_preorder_iff.mp hx

/-- A walk through all units. -/
theorem foldl_runUnit_eq {as : List (Prepared × Nat)} (has : as ⊆ e.participants c) :
    (e.unitsOf c).foldl (runUnit (as.map (·.1))) p
      = ((e.unitsOf c).zipIdx.flatMap (unitSteps as)).foldl (e.step c) p := by
  nth_rewrite 1 [← List.zipIdx_map_fst 0 (e.unitsOf c)]
  rw [List.foldl_map, List.foldl_flatMap]
  apply List.foldl_ext
  intro p u hu
  exact runUnit_eq_foldl has hu

theorem runSymbols_eq_foldl (ha : a ∈ e.participants c) :
    runSymbols c (e.unitsOf c) p a.1 = (e.symbolSteps c a).foldl (e.step c) p := by
  have hvisits : c.symbols.symbols.toList.foldl (visitSymbol c.symbols (e.unitsOf c) a.1) p
      = (e.symbolSteps c a).foldl (e.step c) p := by
    rw [symbolSteps, List.foldl_map]
    apply List.foldl_ext
    intro p s hs
    exact visitSymbol_eq_foldl ha (SymbolTable.get?_of_mem hs)
  rw [runSymbols, ← hvisits]
  split
  · rename_i hempty
    -- an analyzer without symbol actions has nothing to do at any symbol
    have hnone : a.1.actions.onSymbol = [] := List.isEmpty_iff.mp hempty
    symm
    apply List.foldlRecOn (motive := fun q => q = p) _ _ rfl
    intro q hq s _
    rw [hq, visitSymbol, Actions.forSymbol, hnone]
    exact ite_self p
  · rfl

theorem foldl_runSymbols_eq : (e.prepare c).foldl (runSymbols c (e.unitsOf c)) p
    = ((e.participants c).flatMap (e.symbolSteps c)).foldl (e.step c) p := by
  rw [← map_fst_participants, List.foldl_map, List.foldl_flatMap]
  apply List.foldl_ext
  intro p a ha
  exact runSymbols_eq_foldl ha

/-- What comes after the concurrent pass. -/
theorem foldl_laterSteps_eq :
    (e.prepare c).foldl (runSymbols c (e.unitsOf c))
        ((e.unitsOf c).foldl (runUnit (e.passes c).2) p)
      = (e.laterSteps c).foldl (e.step c) p := by
  rw [passes_eq_participants, foldl_runUnit_eq (List.filter_subset_self _), foldl_runSymbols_eq,
    laterSteps, List.foldl_append]

/-- **An analysis makes its calls in steps.** -/
theorem run_eq_foldl_steps (e : Engine) (c : Compilation) :
    e.run c = (e.steps c).foldl (e.step c) { cancelled := e.cancelled } := by
  show (e.prepare c).foldl (runSymbols c (e.unitsOf c)) ((e.unitsOf c).foldl
    (runUnit (e.passes c).2) ((e.unitsOf c).foldl (runUnit (e.passes c).1) _)) = _
  rw [foldl_laterSteps_eq, passes_eq_participants, foldl_runUnit_eq (List.filter_subset_self _),
    steps, List.foldl_append]

/-! ### Stops and counters -/

/-- Whether a call asks for a stop when none was requested before. -/
def stops (e : Engine) (c : Compilation) (call : Call) : Bool :=
  (e.invocation? c call).any fun i => (i.outcome false).cancel

/-- Whether a call is one of an analyzer of the name. -/
def isBy (e : Engine) (c : Compilation) (name : String) (call : Call) : Bool :=
  (e.invocation? c call).any (·.analyzer == name)

theorem cancelled_perform (p : Progress) (call : Call) :
    (e.perform c p call).cancelled = (p.cancelled || e.stops c call) := by
  rw [perform, stops]
  cases e.invocation? c call with
  | none => exact (Bool.or_false _).symm
  | some i =>
    show (p.cancelled || (i.outcome p.cancelled).cancel) = (p.cancelled || (i.outcome false).cancel)
    -- what the action sees does not matter once a stop was requested
    cases p.cancelled <;> rfl

theorem cancelled_foldl_perform (p : Progress) (calls : List Call) :
    (calls.foldl (e.perform c) p).cancelled = (p.cancelled || calls.any (e.stops c)) := by
  induction calls generalizing p with
  | nil => exact (Bool.or_false _).symm
  | cons call calls ih =>
    rw [List.foldl_cons, ih, cancelled_perform, List.any_cons, Bool.or_assoc]

theorem cancelled_step (p : Progress) (calls : List Call) :
    (e.step c p calls).cancelled = (p.cancelled || calls.any (e.stops c)) := by
  rw [step]
  split
  · rename_i hp
    rw [hp, Bool.true_or]
  · exact cancelled_foldl_perform p calls

theorem cancelled_foldl_step (p : Progress) (steps : List (List Call)) :
    (steps.foldl (e.step c) p).cancelled = (p.cancelled || steps.flatten.any (e.stops c)) := by
  induction steps generalizing p with
  | nil => exact (Bool.or_false _).symm
  | cons calls steps ih =>
    rw [List.foldl_cons, ih, cancelled_step, List.flatten_cons, List.any_append, Bool.or_assoc]

/-- Steps none of which asks for a stop make all their calls. -/
theorem foldl_step_eq {steps : List (List Call)} (hp : p.cancelled = false)
    (h : ∀ call ∈ steps.flatten, e.stops c call = false) :
    steps.foldl (e.step c) p = steps.flatten.foldl (e.perform c) p := by
  induction steps generalizing p with
  | nil => rfl
  | cons calls steps ih =>
    rw [List.flatten_cons] at h ⊢
    have hcalls : calls.any (e.stops c) = false := by
      rw [List.any_eq_false]
      intro call hcall
      exact ne_true_of_eq_false (h call (List.mem_append_left _ hcall))
    have hstep : e.step c p calls = calls.foldl (e.perform c) p := by
      rw [step, hp, if_neg Bool.false_ne_true]
    rw [List.foldl_cons, hstep, List.foldl_append]
    apply ih _ fun call hcall => h call (List.mem_append_right _ hcall)
    rw [cancelled_foldl_perform, hp, hcalls, Bool.or_false]

/-- The calls of each analyzer are counted. -/
theorem get?_invocations_foldl_perform (p : Progress) (calls : List Call) (name : String) :
    (calls.foldl (e.perform c) p).invocations.get? name
      = Dict.raise (p.invocations.get? name) (calls.countP (e.isBy c name)) := by
  induction calls generalizing p with
  | nil => rfl
  | cons call calls ih =>
    have hcall : (e.perform c p call).invocations.get? name
        = Dict.raise (p.invocations.get? name) (if e.isBy c name call then 1 else 0) := by
      rw [perform, isBy]
      cases e.invocation? c call with
      | none => rfl
      | some i => exact Progress.get?_invocations_after _ _ _ _ _
    rw [List.foldl_cons, ih, hcall, Dict.raise_raise, List.countP_cons, Nat.add_comm]

end Engine

/-! ### Other actions in the same places -/

/-- The actions, each replaced by another one for the same kind. -/
def Actions.adapt (onNode : NodeAction → NodeAction) (onSymbol : SymbolAction → SymbolAction)
    (a : Actions) : Actions where
  onNode := a.onNode.map fun r => (r.1, onNode r.2)
  onSymbol := a.onSymbol.map fun r => (r.1, onSymbol r.2)

/-- The analyzer with each action replaced, also those that are made for a compilation. -/
def Analyzer.adapt (onNode : NodeAction → NodeAction) (onSymbol : SymbolAction → SymbolAction)
    (a : Analyzer) : Analyzer :=
  { a with
    actions := a.actions.adapt onNode onSymbol
    atStart := a.atStart.map fun start c => (start c).adapt onNode onSymbol }

theorem Analyzer.actionsFor_adapt (onNode : NodeAction → NodeAction)
    (onSymbol : SymbolAction → SymbolAction) (a : Analyzer) (c : Compilation) :
    (a.adapt onNode onSymbol).actionsFor c = (a.actionsFor c).adapt onNode onSymbol := by
  show (a.atStart.map _).foldl _ (a.actions.adapt onNode onSymbol)
    = (a.atStart.foldl _ a.actions).adapt onNode onSymbol
  rw [List.foldl_map]
  apply List.foldl_hom (Actions.adapt onNode onSymbol)
  intro actions start
  simp only [Actions.append, Actions.adapt, List.map_append]

namespace Engine

variable {e : Engine} {c : Compilation} {onNode : Analyzer → NodeAction → NodeAction}
  {onSymbol : Analyzer → SymbolAction → SymbolAction}

/-- The engine with the actions of each analyzer replaced. -/
def adapt (onNode : Analyzer → NodeAction → NodeAction)
    (onSymbol : Analyzer → SymbolAction → SymbolAction) (e : Engine) : Engine :=
  { e with analyzers := e.analyzers.map fun a => a.adapt (onNode a) (onSymbol a) }

/-- A participant with its actions replaced. -/
def Prepared.adapt (onNode : Analyzer → NodeAction → NodeAction)
    (onSymbol : Analyzer → SymbolAction → SymbolAction) (a : Prepared) : Prepared :=
  ⟨a.analyzer.adapt (onNode a.analyzer) (onSymbol a.analyzer),
    a.actions.adapt (onNode a.analyzer) (onSymbol a.analyzer)⟩

theorem participants_adapt (onNode : Analyzer → NodeAction → NodeAction)
    (onSymbol : Analyzer → SymbolAction → SymbolAction) (e : Engine) (c : Compilation) :
    (e.adapt onNode onSymbol).participants c
      = (e.participants c).map fun a => (a.1.adapt onNode onSymbol, a.2) := by
  simp only [participants, adapt, List.zipIdx_map, List.filter_map, List.map_map]
  apply List.map_congr_left
  intro a _
  simp only [Function.comp_apply, Prod.map_fst, Prod.map_snd, Analyzer.actionsFor_adapt]
  rfl

theorem nodeCalls_adapt (k : Nat) (x : Element) (a : Prepared × Nat) :
    nodeCalls k x (a.1.adapt onNode onSymbol, a.2) = nodeCalls k x a := by
  simp only [nodeCalls, Prepared.adapt, Actions.adapt, List.zipIdx_map, List.filter_map,
    List.map_map]
  rfl

theorem unitSteps_adapt (as : List (Prepared × Nat)) :
    unitSteps (as.map fun a => (a.1.adapt onNode onSymbol, a.2)) = unitSteps as := by
  funext u
  simp only [unitSteps, List.filter_map, List.flatMap_map, nodeCalls_adapt]
  rfl

theorem symbolSteps_adapt (a : Prepared × Nat) :
    (e.adapt onNode onSymbol).symbolSteps c (a.1.adapt onNode onSymbol, a.2)
      = e.symbolSteps c a := by
  apply List.map_congr_left
  intro s _
  simp only [symbolCalls, Prepared.adapt, Actions.adapt, List.zipIdx_map, List.filter_map,
    List.map_map]
  rfl

/-- Which calls are made, and in which steps, is a matter of what the actions are for. -/
theorem steps_adapt (onNode : Analyzer → NodeAction → NodeAction)
    (onSymbol : Analyzer → SymbolAction → SymbolAction) (e : Engine) (c : Compilation) :
    (e.adapt onNode onSymbol).steps c = e.steps c := by
  -- what counts as generated is a matter of the settings only
  have hunits : (e.adapt onNode onSymbol).unitsOf c = e.unitsOf c := rfl
  simp only [steps, laterSteps, hunits, participants_adapt, List.filter_map, List.flatMap_map,
    symbolSteps_adapt, unitSteps_adapt]
  rfl

/-- What a call of a node action comes to. -/
def Invocation.ofNode (a : Analyzer) (u : AnalysisUnit) (x : Element) (action : NodeAction) :
    Invocation :=
  ⟨a.name, fun cancelled =>
    ⟨if a.reportsOn u then (action ⟨u, x, cancelled⟩).reports else [],
      (action ⟨u, x, cancelled⟩).cancel⟩⟩

/-- What a call of a symbol action comes to. -/
def Invocation.ofSymbol (a : Analyzer) (symbols : SymbolTable) (sites : List Declaration)
    (s : Symbol) (action : SymbolAction) : Invocation :=
  ⟨a.name, fun cancelled =>
    ⟨keptReports a (action ⟨s, symbols, sites, cancelled⟩).reports,
      (action ⟨s, symbols, sites, cancelled⟩).cancel⟩⟩

/-- What a call comes to changes as what its action comes to. -/
theorem invocation?_adapt {change : Invocation → Invocation}
    (hnode : ∀ a ∈ e.analyzers, ∀ u ∈ e.unitsOf c, ∀ x, ∀ r ∈ (a.actionsFor c).onNode,
      .ofNode a u x (onNode a r.2) = change (.ofNode a u x r.2))
    (hsymbol : ∀ a ∈ e.analyzers, ∀ n s, ∀ r ∈ (a.actionsFor c).onSymbol,
      .ofSymbol a c.symbols (e.sites c a n) s (onSymbol a r.2)
        = change (.ofSymbol a c.symbols (e.sites c a n) s r.2)) (call : Call) :
    (e.adapt onNode onSymbol).invocation? c call = (e.invocation? c call).map change := by
  have hanalyzer : ∀ i : Nat, (e.adapt onNode onSymbol).analyzers[i]?
      = (e.analyzers[i]?).map fun a => a.adapt (onNode a) (onSymbol a) :=
    fun i => List.getElem?_map
  have hunits : (e.adapt onNode onSymbol).unitsOf c = e.unitsOf c := rfl
  cases call with
  -- the same places lead to something before and after, so what is looked up goes along
  | node i j k n =>
    simp only [invocation?, hanalyzer, hunits]
    rcases ha : e.analyzers[i]? with - | a
    · rfl
    rcases hu : (e.unitsOf c)[k]? with - | u
    · rfl
    simp only [Option.map_some, Option.bind_eq_bind, Option.bind_some, Analyzer.actionsFor_adapt,
      Actions.adapt, List.getElem?_map]
    rcases hr : (a.actionsFor c).onNode[j]? with - | r
    · rfl
    rcases u.tree.element? n with - | x
    · rfl
    exact congrArg some (hnode a (List.mem_of_getElem? ha) u (List.mem_of_getElem? hu) x r
      (List.mem_of_getElem? hr))
  | symbol i j n =>
    simp only [invocation?, hanalyzer]
    rcases ha : e.analyzers[i]? with - | a
    · rfl
    simp only [Option.map_some, Option.bind_eq_bind, Option.bind_some, Analyzer.actionsFor_adapt,
      Actions.adapt, List.getElem?_map]
    rcases hr : (a.actionsFor c).onSymbol[j]? with - | r
    · rfl
    rcases c.symbols.get? n with - | s
    · rfl
    exact congrArg some (hsymbol a (List.mem_of_getElem? ha) n s r (List.mem_of_getElem? hr))

theorem select?_adapt (onNode : Analyzer → NodeAction → NodeAction)
    (onSymbol : Analyzer → SymbolAction → SymbolAction) (e : Engine) :
    (e.adapt onNode onSymbol).select? = e.select? := by
  have hrule : ∀ id, (e.adapt onNode onSymbol).rule? id = e.rule? id := by
    intro id
    rw [rule?, adapt, List.flatMap_map]
    rfl
  funext d
  rw [select?, select?, hrule]
  rfl

end Engine

end TreeLint
