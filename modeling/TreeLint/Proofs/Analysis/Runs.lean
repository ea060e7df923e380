/-
TreeLint/Proofs/Analysis/Runs.lean

Analyses that are not stopped, in closed form.

As long as nothing asks for a stop, every action that runs adds one *event* to
the progress: the name of its analyzer, and what is kept of its reports.  So a
pass over a unit, over all units, or over all symbols comes to a list of
events that is known beforehand (`Engine.runUnit_eq`, `Engine.runSymbols_eq`),
and the progress after it is the progress before with these events added.
-/
import TreeLint.Analysis.Engine
import TreeLint.Proofs.Diagnostic
import TreeLint.Proofs.Dict
import TreeLint.Proofs.Symbol.Table

namespace TreeLint

/-! ### Counters -/

namespace Dict

variable {α β : Type}

/-- The counters of both, added up. -/
def add (into other : Dict Nat) : Dict Nat :=
  into.mergeWith (· + ·) other

/-- A counter after `n` more; one that was not there and gets nothing stays away. -/
def raise (count : Option Nat) (n : Nat) : Option Nat :=
  if n = 0 then count else some (count.getD 0 + n)

theorem raise_raise (count : Option Nat) (m n : Nat) :
    raise (raise count m) n = raise count (m + n) := by
  simp only [raise]
  by_cases hm : m = 0
  · simp [hm]
  · by_cases hn : n = 0
    · simp [hn]
    · simp [hm, hn, Nat.add_assoc]

/-- What adding up does to one counter, where the other one is missing rather than 0. -/
theorem get?_add_eq_raise {into other : Dict Nat} {k : String} {n : Nat}
    (hn : other.get? k = raise none n) : (into.add other).get? k = raise (into.get? k) n := by
  rw [add, get?_mergeWith, hn]
  cases n with
  | zero => exact Option.merge_none_right
  | succ n => cases into.get? k <;> simp [raise]

/-- Counters that are added up one after the other. -/
theorem get?_foldl_add {f : α → Dict Nat} {g : α → List β} {p : β → Bool} {k : String}
    {xs : List α} (h : ∀ x ∈ xs, (f x).get? k = raise none ((g x).countP p)) (counts : Dict Nat) :
    (xs.foldl (fun d x => d.add (f x)) counts).get? k
      = raise (counts.get? k) ((xs.flatMap g).countP p) := by
  induction xs generalizing counts with
  | nil => rfl
  | cons x xs ih =>
    rw [List.foldl_cons, ih fun y hy => h y (List.mem_cons_of_mem x hy),
      get?_add_eq_raise (h x List.mem_cons_self), raise_raise, List.flatMap_cons,
      List.countP_append]

end Dict

namespace Engine

/-! ### Events -/

/-- One action that ran: the name of its analyzer, and what is kept of its reports. -/
structure Event where
  analyzer : String
  reports : List Diagnostic

namespace Progress

/-- The progress after actions none of which asks for a stop. -/
def afterAll (p : Progress) (events : List Event) : Progress :=
  events.foldl (fun p ev => p.after ev.analyzer ev.reports false) p

theorem afterAll_append (p : Progress) (events events' : List Event) :
    p.afterAll (events ++ events') = (p.afterAll events).afterAll events' :=
  List.foldl_append

theorem cancelled_afterAll (p : Progress) (events : List Event) :
    (p.afterAll events).cancelled = p.cancelled := by
  induction events generalizing p with
  | nil => rfl
  | cons ev events ih => exact (ih _).trans (Bool.or_false _)

theorem reported_afterAll (p : Progress) (events : List Event) :
    (p.afterAll events).reported = p.reported ++ events.flatMap (·.reports) := by
  induction events generalizing p with
  | nil => exact (List.append_nil _).symm
  | cons ev events ih =>
    rw [List.flatMap_cons, ← List.append_assoc]
    exact ih _

/-- One more action is counted for its analyzer. -/
theorem get?_invocations_after (p : Progress) (analyzer : String) (reported : List Diagnostic)
    (cancel : Bool) (name : String) :
    (p.after analyzer reported cancel).invocations.get? name
      = Dict.raise (p.invocations.get? name) (if analyzer == name then 1 else 0) := by
  rw [after, Dict.get?_alter]
  by_cases h : name = analyzer
  · simp [h, Dict.raise]
  · simp [h, Ne.symm h, Dict.raise]

/-- The actions of each analyzer are counted. -/
theorem get?_invocations_afterAll (p : Progress) (events : List Event) (name : String) :
    (p.afterAll events).invocations.get? name
      = Dict.raise (p.invocations.get? name) (events.countP (·.analyzer == name)) := by
  induction events generalizing p with
  | nil => rfl
  | cons ev events ih =>
    show ((p.after ev.analyzer ev.reports false).afterAll events).invocations.get? name = _
    rw [ih, get?_invocations_after, Dict.raise_raise, List.countP_cons, Nat.add_comm]

end Progress

/-! ### Passes -/

theorem exists_of_mem_prepare {e : Engine} {c : Compilation} {a : Prepared}
    (h : a ∈ e.prepare c) :
    a.analyzer ∈ e.analyzers ∧ a.actions = a.analyzer.actionsFor c := by
  obtain ⟨a', ha', rfl⟩ := List.mem_map.mp h
  exact ⟨(List.mem_filter.mp ha').1, rfl⟩

/-- No action of the analyzer asks for a stop. -/
structure Prepared.Quiet (a : Prepared) : Prop where
  onNode : ∀ k action, (k, action) ∈ a.actions.onNode → ∀ ctx, (action ctx).cancel = false
  onSymbol : ∀ k action, (k, action) ∈ a.actions.onSymbol → ∀ ctx, (action ctx).cancel = false

/-- An analyzer whose only action reports what a check finds is quiet. -/
theorem quiet_of_onNode_eq {a : Prepared} {kind : Kind} {check : NodeContext → List Diagnostic}
    (hnode : a.actions.onNode = [(kind, fun ctx => { reports := check ctx })])
    (hsymbol : a.actions.onSymbol = []) : a.Quiet where
  onNode k action haction ctx := by
    rw [hnode, List.mem_singleton] at haction
    obtain ⟨rfl, rfl⟩ := Prod.mk.inj haction
    rfl
  onSymbol k action haction := by
    rw [hsymbol] at haction
    cases haction

theorem mem_forNode {a : Actions} {kind : Kind} {action : NodeAction}
    (h : action ∈ a.forNode kind) : (kind, action) ∈ a.onNode := by
  obtain ⟨⟨k, action'⟩, hentry, rfl⟩ := List.mem_map.mp h
  obtain ⟨hmem, hk⟩ := List.mem_filter.mp hentry
  obtain rfl : k = kind := by simpa using hk
  exact hmem

theorem mem_forSymbol {a : Actions} {kind : SymbolKind} {action : SymbolAction}
    (h : action ∈ a.forSymbol kind) : (kind, action) ∈ a.onSymbol := by
  obtain ⟨⟨k, action'⟩, hentry, rfl⟩ := List.mem_map.mp h
  obtain ⟨hmem, hk⟩ := List.mem_filter.mp hentry
  obtain rfl : k = kind := by simpa using hk
  exact hmem

/-- What the actions of an analyzer come to on an element. -/
def nodeEvents (u : AnalysisUnit) (e : Element) (a : Prepared) : List Event :=
  (a.actions.forNode e.kind).map fun action =>
    ⟨a.analyzer.name, if a.analyzer.reportsOn u then (action ⟨u, e, false⟩).reports else []⟩

/-- What a pass over a unit comes to. -/
def unitEvents (analyzers : List Prepared) (u : AnalysisUnit) : List Event :=
  u.tree.top.preorder.flatMap fun e =>
    (analyzers.filter (·.analyzer.runsOn u)).flatMap (nodeEvents u e)

/-- What the actions of an analyzer come to on a symbol. -/
def symbolEvents (symbols : SymbolTable) (units : List AnalysisUnit) (a : Prepared) (s : Symbol) :
    List Event :=
  let visible := (declarationsOf units s.id).filter (a.analyzer.runsOn ·.unit)
  if visible.isEmpty then []
  else
    (a.actions.forSymbol s.kind).map fun action =>
      ⟨a.analyzer.name, keptReports a.analyzer (action ⟨s, symbols, visible, false⟩).reports⟩

/-- What a pass over all symbols comes to. -/
def symbolPass (c : Compilation) (units : List AnalysisUnit) (a : Prepared) : List Event :=
  if a.actions.onSymbol.isEmpty then []
  else c.symbols.symbols.toList.flatMap (symbolEvents c.symbols units a)

/-- Steps that each add known events, as long as no stop was requested, add all of them. -/
theorem foldl_eq_afterAll {α : Type} {step : Progress → α → Progress} {events : α → List Event}
    {xs : List α}
    (h : ∀ x ∈ xs, ∀ p : Progress, p.cancelled = false → step p x = p.afterAll (events x))
    {p : Progress} (hp : p.cancelled = false) :
    xs.foldl step p = p.afterAll (xs.flatMap events) := by
  induction xs generalizing p with
  | nil => rfl
  | cons x xs ih =>
    rw [List.foldl_cons, h x List.mem_cons_self p hp, List.flatMap_cons, Progress.afterAll_append]
    apply ih fun y hy => h y (List.mem_cons_of_mem x hy)
    rw [Progress.cancelled_afterAll, hp]

variable {p : Progress}

theorem visitBy_eq {a : Prepared} (ha : a.Quiet) (u : AnalysisUnit) (e : Element)
    (hp : p.cancelled = false) : visitBy u e p a = p.afterAll (nodeEvents u e a) := by
  rw [visitBy, nodeEvents, List.map_eq_flatMap]
  apply foldl_eq_afterAll _ hp
  intro action haction p hp
  have hquiet := ha.onNode _ _ (mem_forNode haction) ⟨u, e, false⟩
  rw [hp]
  show p.after _ _ (action ⟨u, e, false⟩).cancel = _
  rw [hquiet]
  rfl

/-- A pass over a unit that is not stopped. -/
theorem runUnit_eq {analyzers : List Prepared} (h : ∀ a ∈ analyzers, a.Quiet) (u : AnalysisUnit)
    (hp : p.cancelled = false) : runUnit analyzers p u = p.afterAll (unitEvents analyzers u) := by
  apply foldl_eq_afterAll _ hp
  intro e _ p hp
  rw [visit, hp, if_neg Bool.false_ne_true]
  apply foldl_eq_afterAll _ hp
  intro a ha p hp
  exact visitBy_eq (h a (List.mem_filter.mp ha).1) u e hp

theorem visitSymbol_eq {a : Prepared} (ha : a.Quiet) (symbols : SymbolTable)
    (units : List AnalysisUnit) (s : Symbol) (hp : p.cancelled = false) :
    visitSymbol symbols units a p s = p.afterAll (symbolEvents symbols units a s) := by
  simp only [visitSymbol, symbolEvents, hp, Bool.false_or]
  split
  · rfl
  · rw [List.map_eq_flatMap]
    apply foldl_eq_afterAll _ hp
    intro action haction p hp
    have hquiet := ha.onSymbol _ _ (mem_forSymbol haction)
      ⟨s, symbols, (declarationsOf units s.id).filter (a.analyzer.runsOn ·.unit), false⟩
    rw [hp, hquiet]
    rfl

/-- A pass over all symbols that is not stopped. -/
theorem runSymbols_eq {a : Prepared} (ha : a.Quiet) (c : Compilation) (units : List AnalysisUnit)
    (hp : p.cancelled = false) : runSymbols c units p a = p.afterAll (symbolPass c units a) := by
  rw [runSymbols, symbolPass]
  split
  · rfl
  · apply foldl_eq_afterAll _ hp
    intro s _ p hp
    exact visitSymbol_eq ha c.symbols units s hp

/-! ### What is shown -/

/-- What is shown, as it can be evaluated. -/
theorem diagnostics_analyze_eq_insertionSort (e : Engine) (c : Compilation) :
    (e.analyze c).diagnostics = ((e.run c).reported.filterMap e.select?).insertionSort
      fun a b => (a.compare b != .gt) = true :=
  Diagnostic.sort_eq_insertionSort _

end Engine

end TreeLint
