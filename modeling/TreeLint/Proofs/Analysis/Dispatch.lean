/-
TreeLint/Proofs/Analysis/Dispatch.lean

Every action is called where it is due, once, and in order.

What is *due* is said without any loop (`Engine.Due`): for an action that is
registered for a kind of node, each element of that kind in each unit that its
analyzer looks at; for one that is registered for a kind of symbol, each symbol
of that kind that such a unit declares.  In an analysis that is not stopped, the
calls are exactly those that are due.

For the rest, the order does the work.  A call comes before another one on the
same element or symbol by an action that is registered later, before those on
later elements of the unit, and before all calls on symbols
(`Engine.InOrder`).  No call comes before itself in this sense, so no call is
made twice.  All of this holds whatever the schedule of the concurrent pass
(`Engine.Scheduled`).
-/
import TreeLint.Proofs.Analysis.Calls

namespace TreeLint

open Element

namespace Engine

/-! ### What is due -/

/-- The calls that an analysis has to make. -/
inductive Due (e : Engine) (c : Compilation) : Call → Prop
  | node {i j k : Nat} {a : Analyzer} {u : AnalysisUnit} {x : Element} {action : NodeAction}
      (analyzer : e.analyzers[i]? = some a) (enabled : a.rules.any e.config.isEnabled = true)
      (unit : (e.unitsOf c)[k]? = some u) (looks : u.generated = false ∨ a.policy.analyze = true)
      (reachable : Below u.tree.top x)
      (registered : (a.actionsFor c).onNode[j]? = some (x.kind, action)) :
      Due e c (.node i j k x.id)
  | symbol {i j : Nat} {a : Analyzer} {u : AnalysisUnit} {s : Symbol} {n : NodeId}
      {action : SymbolAction}
      (analyzer : e.analyzers[i]? = some a) (enabled : a.rules.any e.config.isEnabled = true)
      (unit : u ∈ e.unitsOf c) (looks : u.generated = false ∨ a.policy.analyze = true)
      (known : c.symbols.get? s.id = some s)
      (declared : u.source.bindings.declared.get? n = some s.id)
      (registered : (a.actionsFor c).onSymbol[j]? = some (s.kind, action)) :
      Due e c (.symbol i j s.id)

/-- The order of calls: of one analyzer in one unit by document order, and on one element or symbol
by order of registration; calls on symbols come after all calls on nodes. -/
def InOrder (e : Engine) (c : Compilation) : Call → Call → Prop
  | .node i j k m, .node i' j' k' n => i = i' → k = k' → m = n ∧ j < j' ∨
      ∃ u, (e.unitsOf c)[k]? = some u ∧ [m, n].Sublist (u.tree.top.preorder.map Element.id)
  | .node .., .symbol .. => True
  | .symbol .., .node .. => False
  | .symbol i j s, .symbol i' j' s' => i = i' → s = s' → j < j'

/-- The calls of the concurrent pass, unit by unit. -/
def concurrentCalls (e : Engine) (c : Compilation) : List (List Call) :=
  (e.unitsOf c).zipIdx.map fun u =>
    (unitSteps ((e.participants c).filter e.concurrently) u).flatten

/-- The calls are those of some schedule: in the concurrent pass the units take turns in any way. -/
def Scheduled (e : Engine) (c : Compilation) (calls : List Call) : Prop :=
  ∃ first, Interleaving (e.concurrentCalls c) first ∧ calls = first ++ (e.laterSteps c).flatten

variable {e : Engine} {c : Compilation} {as : List (Prepared × Nat)} {call : Call}

theorem runsOn_iff {a : Analyzer} {u : AnalysisUnit} :
    a.runsOn u = true ↔ u.generated = false ∨ a.policy.analyze = true := by
  rw [Analyzer.runsOn, Bool.or_eq_true, Bool.not_eq_true']

theorem flatten_concurrentCalls (e : Engine) (c : Compilation) :
    (e.concurrentCalls c).flatten = ((e.unitsOf c).zipIdx.flatMap
      (unitSteps ((e.participants c).filter e.concurrently))).flatten := by
  rw [concurrentCalls, ← List.flatMap_def, flatten_flatMap]

theorem flatten_steps (e : Engine) (c : Compilation) :
    (e.steps c).flatten = (e.concurrentCalls c).flatten ++ (e.laterSteps c).flatten := by
  rw [steps, List.flatten_append, flatten_concurrentCalls]

/-! ### All that is due, and nothing else -/

theorem mem_nodeCalls_iff {k : Nat} {x : Element} {a : Prepared × Nat} :
    call ∈ nodeCalls k x a ↔
      ∃ j action, a.1.actions.onNode[j]? = some (x.kind, action) ∧ call = .node a.2 j k x.id := by
  simp only [nodeCalls, List.mem_map, List.mem_filter, List.mem_zipIdx_iff_getElem?, beq_iff_eq]
  constructor
  · rintro ⟨⟨⟨kind, action⟩, j⟩, ⟨hj, rfl⟩, rfl⟩
    exact ⟨j, action, hj, rfl⟩
  · rintro ⟨j, action, hj, rfl⟩
    exact ⟨((x.kind, action), j), ⟨hj, rfl⟩, rfl⟩

theorem mem_unitSteps_iff {u : AnalysisUnit × Nat} : call ∈ (unitSteps as u).flatten ↔
    ∃ a ∈ as, a.1.analyzer.runsOn u.1 = true ∧ ∃ x, Below u.1.tree.top x ∧
      ∃ j action, a.1.actions.onNode[j]? = some (x.kind, action) ∧
        call = .node a.2 j u.2 x.id := by
  simp only [unitSteps, ← List.flatMap_def, List.mem_flatMap, List.mem_filter, mem_preorder_iff,
    mem_nodeCalls_iff]
  constructor
  · rintro ⟨x, hx, a, ⟨ha, hruns⟩, hcall⟩
    exact ⟨a, ha, hruns, x, hx, hcall⟩
  · rintro ⟨a, ha, hruns, x, hx, hcall⟩
    exact ⟨x, hx, a, ⟨ha, hruns⟩, hcall⟩

theorem mem_sites_iff {a : Analyzer} {id : SymbolId} {d : Declaration} : d ∈ e.sites c a id ↔
    d.unit ∈ e.unitsOf c ∧ a.runsOn d.unit = true ∧
      d.unit.source.bindings.declared.get? d.node = some id := by
  simp only [sites, List.mem_flatMap, List.mem_filter, List.mem_map, AnalysisUnit.mem_declaring_iff]
  constructor
  · rintro ⟨u, ⟨hu, hruns⟩, n, hn, rfl⟩
    exact ⟨hu, hruns, hn⟩
  · rintro ⟨hu, hruns, hn⟩
    exact ⟨d.unit, ⟨hu, hruns⟩, d.node, hn, rfl⟩

theorem mem_symbolCalls_iff {a : Prepared × Nat} {s : Symbol} : call ∈ e.symbolCalls c a s ↔
    (∃ d, d ∈ e.sites c a.1.analyzer s.id) ∧
      ∃ j action, a.1.actions.onSymbol[j]? = some (s.kind, action) ∧
        call = .symbol a.2 j s.id := by
  rw [symbolCalls]
  split
  · rename_i hempty
    rw [List.isEmpty_iff.mp hempty]
    simp
  · rename_i hsites
    rw [List.isEmpty_iff] at hsites
    simp only [List.mem_map, List.mem_filter, List.mem_zipIdx_iff_getElem?, beq_iff_eq]
    constructor
    · rintro ⟨⟨⟨kind, action⟩, j⟩, ⟨hj, rfl⟩, rfl⟩
      exact ⟨List.exists_mem_of_ne_nil _ hsites, j, action, hj, rfl⟩
    · rintro ⟨-, j, action, hj, rfl⟩
      exact ⟨((s.kind, action), j), ⟨hj, rfl⟩, rfl⟩

theorem mem_symbolSteps_iff {a : Prepared × Nat} : call ∈ (e.symbolSteps c a).flatten ↔
    ∃ s, c.symbols.get? s.id = some s ∧ call ∈ e.symbolCalls c a s := by
  rw [symbolSteps, ← List.flatMap_def, List.mem_flatMap]
  constructor
  · rintro ⟨s, hs, hcall⟩
    exact ⟨s, SymbolTable.get?_of_mem hs, hcall⟩
  · rintro ⟨s, hs, hcall⟩
    exact ⟨s, SymbolTable.mem_of_get?_eq_some hs, hcall⟩

/-- The calls of a walk through all units. -/
theorem mem_flatMap_unitSteps_iff :
    call ∈ ((e.unitsOf c).zipIdx.flatMap (unitSteps as)).flatten ↔
      ∃ a ∈ as, ∃ u k, (e.unitsOf c)[k]? = some u ∧ a.1.analyzer.runsOn u = true ∧
        ∃ x, Below u.tree.top x ∧ ∃ j action, a.1.actions.onNode[j]? = some (x.kind, action) ∧
          call = .node a.2 j k x.id := by
  rw [flatten_flatMap, List.mem_flatMap]
  simp only [mem_unitSteps_iff, List.mem_zipIdx_iff_getElem?]
  constructor
  · rintro ⟨⟨u, k⟩, hu, a, ha, hruns, hcall⟩
    exact ⟨a, ha, u, k, hu, hruns, hcall⟩
  · rintro ⟨a, ha, u, k, hu, hruns, hcall⟩
    exact ⟨(u, k), hu, a, ha, hruns, hcall⟩

/-- A participant is in one of the two passes. -/
theorem exists_participant_iff {P : Prepared × Nat → Prop} : (∃ a ∈ e.participants c, P a) ↔
    (∃ a ∈ (e.participants c).filter e.concurrently, P a) ∨
      ∃ a ∈ (e.participants c).filter (!e.concurrently ·), P a := by
  simp only [List.mem_filter]
  constructor
  · rintro ⟨a, ha, h⟩
    cases hfirst : e.concurrently a
    · exact .inr ⟨a, ⟨ha, by rw [hfirst]; rfl⟩, h⟩
    · exact .inl ⟨a, ⟨ha, hfirst⟩, h⟩
  · rintro (⟨a, ⟨ha, -⟩, h⟩ | ⟨a, ⟨ha, -⟩, h⟩) <;> exact ⟨a, ha, h⟩

/-- An analysis makes the calls that are due and no others. -/
theorem mem_steps_iff : call ∈ (e.steps c).flatten ↔ e.Due c call := by
  rw [steps, laterSteps, List.flatten_append, List.flatten_append, List.mem_append, List.mem_append,
    mem_flatMap_unitSteps_iff, mem_flatMap_unitSteps_iff, ← or_assoc, ← exists_participant_iff,
    flatten_flatMap, List.mem_flatMap]
  simp only [mem_symbolSteps_iff, mem_symbolCalls_iff, mem_sites_iff, runsOn_iff]
  constructor
  · rintro (⟨a, ha, u, k, hu, hlooks, x, hx, j, action, hj, rfl⟩ |
      ⟨a, ha, s, hs, ⟨d, hd, hlooks, hdeclared⟩, j, action, hj, rfl⟩)
    all_goals
      obtain ⟨hindex, hrules, hactions⟩ := mem_participants_iff.mp ha
      rw [hactions] at hj
    · exact .node hindex hrules hu hlooks hx hj
    · exact .symbol hindex hrules hd hlooks hs hdeclared hj
  · intro h
    cases h with
    | @node i j k a u x action hindex hrules hu hlooks hx hj =>
      refine .inl ⟨(⟨a, a.actionsFor c⟩, i), ?_, u, k, hu, hlooks, x, hx, j, action, hj, rfl⟩
      exact mem_participants_iff.mpr ⟨hindex, hrules, rfl⟩
    | @symbol i j a u s n action hindex hrules hu hlooks hs hdeclared hj =>
      refine .inr ⟨(⟨a, a.actionsFor c⟩, i), ?_, s, hs, ⟨⟨u, n⟩, hu, hlooks, hdeclared⟩, j, action,
        hj, rfl⟩
      exact mem_participants_iff.mpr ⟨hindex, hrules, rfl⟩

/-- What is due can be called. -/
theorem isSome_invocation? (h : e.Due c call) : (e.invocation? c call).isSome = true := by
  cases h with
  | node hindex _ hu _ hx hj =>
    simp [invocation?, hindex, hu, hj, Tree.element?_of_below_top hx]
  | symbol hindex _ _ _ hs _ hj => simp [invocation?, hindex, hs, hj]

/-! ### Order -/

theorem pairwise_zipIdx {α : Type} (xs : List α) : xs.zipIdx.Pairwise (·.2 < ·.2) := by
  apply List.pairwise_map.mp
  rw [List.zipIdx_map_snd]
  exact List.pairwise_lt_range'

theorem pairwise_participants (e : Engine) (c : Compilation) :
    (e.participants c).Pairwise (·.2 < ·.2) := by
  rw [participants, List.pairwise_map]
  exact (pairwise_zipIdx e.analyzers).filter _

/-- Elements in document order. -/
theorem pairwise_preorder (t : Tree) :
    t.top.preorder.Pairwise fun x y => [x.id, y.id].Sublist (t.top.preorder.map Element.id) :=
  List.pairwise_iff_forall_sublist.mpr fun h => h.map Element.id

theorem pairwise_unitSteps {k : Nat} {u : AnalysisUnit} (hu : (e.unitsOf c)[k]? = some u)
    (has : as.Pairwise (·.2 < ·.2)) : (unitSteps as (u, k)).flatten.Pairwise (e.InOrder c) := by
  rw [unitSteps, ← List.flatMap_def, List.pairwise_flatMap]
  constructor
  · intro x _
    rw [List.pairwise_flatMap]
    constructor
    · -- one analyzer on one element: by registration
      intro a _
      rw [nodeCalls, List.pairwise_map]
      refine ((pairwise_zipIdx _).filter _).imp ?_
      intro r r' hlt _ _
      exact .inl ⟨rfl, hlt⟩
    · -- two analyzers: in any order
      refine (has.filter _).imp ?_
      intro a a' hlt call hcall call' hcall'
      obtain ⟨j, action, -, rfl⟩ := mem_nodeCalls_iff.mp hcall
      obtain ⟨j', action', -, rfl⟩ := mem_nodeCalls_iff.mp hcall'
      intro heq
      exact absurd heq hlt.ne
  · refine (pairwise_preorder u.tree).imp ?_
    intro x y hxy call hcall call' hcall'
    obtain ⟨a, -, hcall⟩ := List.mem_flatMap.mp hcall
    obtain ⟨a', -, hcall'⟩ := List.mem_flatMap.mp hcall'
    obtain ⟨j, action, -, rfl⟩ := mem_nodeCalls_iff.mp hcall
    obtain ⟨j', action', -, rfl⟩ := mem_nodeCalls_iff.mp hcall'
    intro _ _
    exact .inr ⟨u, hu, hxy⟩

/-- Calls in different units, in any order. -/
theorem inOrder_of_ne {as' : List (Prepared × Nat)} {call' : Call} {u v : AnalysisUnit × Nat}
    (hcall : call ∈ (unitSteps as u).flatten) (hcall' : call' ∈ (unitSteps as' v).flatten)
    (h : u.2 ≠ v.2) : e.InOrder c call call' := by
  obtain ⟨a, -, -, x, -, j, action, -, rfl⟩ := mem_unitSteps_iff.mp hcall
  obtain ⟨a', -, -, x', -, j', action', -, rfl⟩ := mem_unitSteps_iff.mp hcall'
  intro _ heq
  exact absurd heq h

theorem pairwise_flatMap_unitSteps (has : as.Pairwise (·.2 < ·.2)) :
    ((e.unitsOf c).zipIdx.flatMap (unitSteps as)).flatten.Pairwise (e.InOrder c) := by
  rw [flatten_flatMap, List.pairwise_flatMap]
  constructor
  · rintro ⟨u, k⟩ hu
    exact pairwise_unitSteps (List.mem_zipIdx_iff_getElem?.mp hu) has
  · refine (pairwise_zipIdx _).imp ?_
    intro u v hlt call hcall call' hcall'
    exact inOrder_of_ne hcall hcall' hlt.ne

theorem pairwise_flatMap_symbolSteps :
    ((e.participants c).flatMap (e.symbolSteps c)).flatten.Pairwise (e.InOrder c) := by
  rw [flatten_flatMap, List.pairwise_flatMap]
  constructor
  · intro a _
    rw [symbolSteps, ← List.flatMap_def, List.pairwise_flatMap]
    constructor
    · -- one symbol: by registration
      intro s _
      rw [symbolCalls]
      split
      · exact .nil
      · rw [List.pairwise_map]
        refine ((pairwise_zipIdx _).filter _).imp ?_
        intro r r' hlt _ _
        exact hlt
    · refine c.symbols.pairwise_id.imp ?_
      intro s s' hlt call hcall call' hcall'
      obtain ⟨-, j, action, -, rfl⟩ := mem_symbolCalls_iff.mp hcall
      obtain ⟨-, j', action', -, rfl⟩ := mem_symbolCalls_iff.mp hcall'
      intro _ heq
      exact absurd heq hlt.ne
  · refine (pairwise_participants e c).imp ?_
    intro a a' hlt call hcall call' hcall'
    obtain ⟨s, -, hcall⟩ := mem_symbolSteps_iff.mp hcall
    obtain ⟨s', -, hcall'⟩ := mem_symbolSteps_iff.mp hcall'
    obtain ⟨-, j, action, -, rfl⟩ := mem_symbolCalls_iff.mp hcall
    obtain ⟨-, j', action', -, rfl⟩ := mem_symbolCalls_iff.mp hcall'
    intro heq
    exact absurd heq hlt.ne

/-- No call comes before itself. -/
theorem not_inOrder_self (call : Call) : ¬e.InOrder c call call := by
  intro h
  cases call with
  | node i j k n =>
    rcases h rfl rfl with ⟨-, hlt⟩ | ⟨u, -, htwice⟩
    · exact Nat.lt_irrefl j hlt
    · exact List.nodup_iff_sublist.mp u.tree.nodup_preorder n htwice
  | symbol i j s => exact Nat.lt_irrefl j (h rfl rfl)

theorem exists_eq_symbol (h : call ∈ (as.flatMap (e.symbolSteps c)).flatten) :
    ∃ i j s, call = .symbol i j s := by
  rw [flatten_flatMap] at h
  obtain ⟨a, -, hcall⟩ := List.mem_flatMap.mp h
  obtain ⟨s, -, hcall⟩ := mem_symbolSteps_iff.mp hcall
  obtain ⟨-, j, action, -, rfl⟩ := mem_symbolCalls_iff.mp hcall
  exact ⟨a.2, j, s.id, rfl⟩

/-- The two passes have different analyzers. -/
theorem place_ne_of_concurrently {a a' : Prepared × Nat} (ha : a ∈ e.participants c)
    (ha' : a' ∈ e.participants c) (h : e.concurrently a = true) (h' : e.concurrently a' = false) :
    a.2 ≠ a'.2 := by
  intro heq
  have hindex := (mem_participants_iff.mp ha).1
  rw [heq, (mem_participants_iff.mp ha').1] at hindex
  rw [concurrently, ← Option.some.inj hindex, ← concurrently, h'] at h
  cases h

/-- The calls of every schedule are in order. -/
theorem Scheduled.pairwise {calls : List Call} (h : e.Scheduled c calls) :
    calls.Pairwise (e.InOrder c) := by
  obtain ⟨first, hfirst, rfl⟩ := h
  have hparticipants := pairwise_participants e c
  rw [laterSteps, List.flatten_append, List.pairwise_append, List.pairwise_append]
  refine ⟨hfirst.pairwise ?_ ?_, ⟨pairwise_flatMap_unitSteps (hparticipants.filter _),
    pairwise_flatMap_symbolSteps, ?_⟩, ?_⟩
  · intro calls hcalls
    obtain ⟨⟨u, k⟩, hu, rfl⟩ := List.mem_map.mp hcalls
    exact pairwise_unitSteps (List.mem_zipIdx_iff_getElem?.mp hu) (hparticipants.filter _)
  · -- how two units take turns does not matter
    rw [concurrentCalls, List.pairwise_map]
    refine (pairwise_zipIdx _).imp ?_
    intro u v hlt call hcall call' hcall'
    exact ⟨inOrder_of_ne hcall hcall' hlt.ne, inOrder_of_ne hcall' hcall hlt.ne'⟩
  · intro call hcall call' hcall'
    obtain ⟨a, -, u, k, -, -, x, -, j, action, -, rfl⟩ := mem_flatMap_unitSteps_iff.mp hcall
    obtain ⟨a', s, j', rfl⟩ := exists_eq_symbol hcall'
    trivial
  · intro call hcall call' hcall'
    rw [hfirst.perm_flatten.mem_iff, flatten_concurrentCalls, mem_flatMap_unitSteps_iff] at hcall
    obtain ⟨a, ha, u, k, -, -, x, -, j, action, -, rfl⟩ := hcall
    rcases List.mem_append.mp hcall' with hcall' | hcall'
    · -- an analyzer is in one of the two walks only
      obtain ⟨a', ha', u', k', -, -, x', -, j', action', -, rfl⟩ :=
        mem_flatMap_unitSteps_iff.mp hcall'
      obtain ⟨ha, hfirst⟩ := List.mem_filter.mp ha
      obtain ⟨ha', hsecond⟩ := List.mem_filter.mp ha'
      intro heq
      exact absurd heq (place_ne_of_concurrently ha ha' hfirst (by simpa using hsecond))
    · obtain ⟨a', s, j', rfl⟩ := exists_eq_symbol hcall'
      trivial

theorem Scheduled.perm {calls : List Call} (h : e.Scheduled c calls) :
    calls.Perm (e.steps c).flatten := by
  obtain ⟨first, hfirst, rfl⟩ := h
  rw [flatten_steps]
  exact hfirst.perm_flatten.append_right _

/-- The units that take their turns are on a schedule. -/
theorem scheduled_steps (e : Engine) (c : Compilation) : e.Scheduled c (e.steps c).flatten :=
  ⟨_, Interleaving.flatten _, flatten_steps e c⟩

/-! ### Counters -/

theorem mem_steps_of_mem_unitSteps {u : AnalysisUnit × Nat} (hu : u ∈ (e.unitsOf c).zipIdx)
    (h : call ∈ (unitSteps ((e.participants c).filter e.concurrently) u).flatten) :
    call ∈ (e.steps c).flatten := by
  rw [flatten_steps]
  exact List.mem_append_left _ (List.mem_flatten_of_mem (List.mem_map_of_mem hu) h)

section Counters

variable (hrunning : e.cancelled = false)
  (hstops : ∀ call ∈ (e.steps c).flatten, e.stops c call = false)
include hrunning hstops

/-- An analysis that nothing stops makes all its calls. -/
theorem run_eq_foldl_perform : e.run c = (e.steps c).flatten.foldl (e.perform c) {} := by
  rw [run_eq_foldl_steps, hrunning]
  exact foldl_step_eq rfl hstops

/-- A unit on its own in the concurrent pass. -/
theorem unitPass_eq_foldl {u : AnalysisUnit × Nat} (hu : u ∈ (e.unitsOf c).zipIdx) :
    e.unitPass c u.1 = ((unitSteps ((e.participants c).filter e.concurrently) u).flatten).foldl
      (e.perform c) {} := by
  rw [unitPass, hrunning, passes_eq_participants, runUnit_eq_foldl (List.filter_subset_self _) hu]
  apply foldl_step_eq rfl
  intro call hcall
  exact hstops call (mem_steps_of_mem_unitSteps hu hcall)

/-- The counters of the concurrent pass, kept by unit and then added up. -/
theorem get?_foldl_add (name : String) :
    ((e.unitsOf c).foldl (fun d u => d.add (e.unitPass c u).invocations) ({} : Dict Nat)).get? name
      = Dict.raise none ((e.concurrentCalls c).flatten.countP (e.isBy c name)) := by
  nth_rewrite 1 [← List.zipIdx_map_fst 0 (e.unitsOf c)]
  rw [List.foldl_map, concurrentCalls, ← List.flatMap_def]
  apply Dict.get?_foldl_add
  intro u hu
  rw [unitPass_eq_foldl hrunning hstops hu]
  exact get?_invocations_foldl_perform _ _ name

/-- An analysis on a schedule, with the concurrent pass done. -/
theorem exists_runScheduled_eq (sink : List Diagnostic) (name : String) :
    ∃ p : Progress, p.cancelled = false ∧
      p.invocations.get? name
        = Dict.raise none ((e.concurrentCalls c).flatten.countP (e.isBy c name)) ∧
      e.runScheduled c sink = (e.laterSteps c).foldl (e.step c) p := by
  refine ⟨_, ?_, get?_foldl_add hrunning hstops name, foldl_laterSteps_eq⟩
  have hunits : ((e.unitsOf c).any fun u => (e.unitPass c u).cancelled) = false := by
    rw [List.any_eq_false]
    intro u hu
    obtain ⟨k, hk⟩ := List.mem_iff_getElem?.mp hu
    have hmem := List.mk_mem_zipIdx_iff_getElem?.mpr hk
    rw [unitPass_eq_foldl hrunning hstops hmem, cancelled_foldl_perform, List.any_eq_false.mpr]
    · exact Bool.false_ne_true
    · intro call hcall
      exact ne_true_of_eq_false (hstops call (mem_steps_of_mem_unitSteps hmem hcall))
  rw [hrunning, hunits]
  rfl

/-- The counters of an analysis on a schedule. -/
theorem get?_invocations_runScheduled (sink : List Diagnostic) (name : String) :
    (e.runScheduled c sink).invocations.get? name
      = Dict.raise none ((e.steps c).flatten.countP (e.isBy c name)) := by
  obtain ⟨p, hp, hcount, hrun⟩ := exists_runScheduled_eq hrunning hstops sink name
  have hlater : ∀ call ∈ (e.laterSteps c).flatten, e.stops c call = false := by
    intro call hcall
    apply hstops
    rw [flatten_steps]
    exact List.mem_append_right _ hcall
  rw [hrun, foldl_step_eq hp hlater, get?_invocations_foldl_perform, hcount, Dict.raise_raise,
    flatten_steps, List.countP_append]

end Counters

/-! ### Main result -/

/-- What is entered under a name after `n` invocations: nothing if there are none. -/
def timing? (n : Nat) : Option Timing := if n = 0 then none else some { count := .ofNat n }

theorem get?_timings_report {p : Progress} {name : String} {n : Nat}
    (h : p.invocations.get? name = Dict.raise none n) :
    (e.report c p).timings.get? name = timing? n := by
  have hmap := Dict.get?_map p.invocations (fun n => ({ count := .ofNat n } : Timing)) name
  refine hmap.trans ?_
  rw [h, Dict.raise, timing?]
  by_cases hn : n = 0
  · rw [if_pos hn, if_pos hn]
    rfl
  · rw [if_neg hn, if_neg hn]
    simp

/-- The calls are all that are due, once each and in order, each of them hands something to an
action, and they are what the counters count, whatever the schedule. -/
structure Dispatches (e : Engine) (c : Compilation) (calls : List Call) : Prop where
  all : ∀ call, call ∈ calls ↔ e.Due c call
  once : calls.Nodup
  ordered : calls.Pairwise (e.InOrder c)
  made : ∀ call ∈ calls, (e.invocation? c call).isSome = true
  counted : ∀ name, (e.analyze c).timings.get? name = timing? (calls.countP (e.isBy c name))
  countedScheduled : ∀ sink name, (e.analyzeScheduled c sink).timings.get? name
    = timing? (calls.countP (e.isBy c name))

/-- The actions of an analyzer: those that are there from the start, and then those that are made
once the compilation is known. -/
theorem actionsFor_eq (a : Analyzer) (c : Compilation) :
    (a.actionsFor c).onNode
      = a.actions.onNode ++ a.atStart.flatMap (fun start => (start c).onNode) ∧
    (a.actionsFor c).onSymbol
      = a.actions.onSymbol ++ a.atStart.flatMap fun start => (start c).onSymbol := by
  rw [Analyzer.actionsFor]
  generalize a.actions = actions
  induction a.atStart generalizing actions with
  | nil => simp
  | cons start rest ih =>
    rw [List.foldl_cons, (ih _).1, (ih _).2]
    simp [Actions.append]

/-- **Dispatch is complete and without repetition.**  An analysis that is not stopped makes exactly
the calls that are due, each of them once, on whatever schedule: node actions on the elements of a
unit in document order, symbol actions after them, on one element or symbol by order of
registration, what an analyzer registers at first before what it registers at the start of a
compilation.  A symbol action is handed all places where its analyzer finds the symbol declared, by
unit and then by number. -/
theorem dispatches_of_not_cancelled (e : Engine) (c : Compilation)
    (h : (e.run c).cancelled = false) :
    (∃ calls, e.Scheduled c calls ∧ e.run c = calls.foldl (e.perform c) {}) ∧
      (∀ calls, e.Scheduled c calls → e.Dispatches c calls) ∧
      (∀ a ∈ e.analyzers,
        (a.actionsFor c).onNode
            = a.actions.onNode ++ a.atStart.flatMap (fun start => (start c).onNode) ∧
          (a.actionsFor c).onSymbol
            = a.actions.onSymbol ++ a.atStart.flatMap fun start => (start c).onSymbol) ∧
      ∀ a id,
        (∀ d, d ∈ e.sites c a id ↔
          d.unit ∈ e.unitsOf c ∧ (d.unit.generated = false ∨ a.policy.analyze = true) ∧
            d.unit.source.bindings.declared.get? d.node = some id) ∧
          ∃ nodes : AnalysisUnit → List NodeId,
            (∀ u, (nodes u).Pairwise (· < ·)) ∧
            e.sites c a id
              = ((e.unitsOf c).filter a.runsOn).flatMap fun u => (nodes u).map (⟨u, ·⟩) := by
  rw [run_eq_foldl_steps, cancelled_foldl_step, Bool.or_eq_false_iff, List.any_eq_false] at h
  obtain ⟨hrunning, hstops⟩ := h
  have hstops : ∀ call ∈ (e.steps c).flatten, e.stops c call = false :=
    fun call hcall => eq_false_of_ne_true (hstops call hcall)
  have hrun := run_eq_foldl_perform hrunning hstops
  refine ⟨⟨_, scheduled_steps e c, hrun⟩, ?_, fun a _ => actionsFor_eq a c,
    fun a id => ⟨fun d => by rw [mem_sites_iff, runsOn_iff],
      (·.declaring id), (·.pairwise_declaring id), rfl⟩⟩
  intro calls hcalls
  have hall : ∀ call, call ∈ calls ↔ e.Due c call :=
    fun call => hcalls.perm.mem_iff.trans mem_steps_iff
  refine ⟨hall, ?_, hcalls.pairwise,
    fun call hcall => isSome_invocation? ((hall call).mp hcall), ?_, ?_⟩
  · refine hcalls.pairwise.imp ?_
    rintro call call' horder rfl
    exact not_inOrder_self call horder
  · intro name
    rw [hcalls.perm.countP_eq]
    apply get?_timings_report
    rw [hrun]
    exact get?_invocations_foldl_perform _ _ name
  · intro sink name
    rw [hcalls.perm.countP_eq]
    exact get?_timings_report (get?_invocations_runScheduled hrunning hstops sink name)

/-- An analyzer with an action on classes from the start, another one that is made for the
compilation, and an action on types. -/
def classWatcher : Analyzer where
  name := "watcher"
  rules := [{ (default : Rule) with enabledByDefault := true }]
  concurrent := true
  actions :=
    { onNode := [(.classDeclaration, fun _ => {})], onSymbol := [(.namedType, fun _ => {})] }
  atStart := [fun _ => { onNode := [(.classDeclaration, fun _ => {})] }]

/-- An engine with that analyzer. -/
def watching : Engine where
  config := {}
  analyzers := [classWatcher]
  generatedGlobs := []

/-- A class in two files. -/
def partialClass : Compilation where
  symbols := SymbolTable.empty.insert
    { name := "Widget", kind := .namedType, typeKind := some .classType }
  units :=
    let tree : Tree := ⟨#[⟨.classDeclaration, [], none⟩], 0, #[none], _, rfl, rfl⟩
    let bindings : Bindings := { declared := NodeMap.empty.insert 0 0 }
    [{ path := ⟨"Widget.cs"⟩, tree, bindings }, { path := ⟨"Widget.Events.cs"⟩, tree, bindings }]

/-- The second file may come first; the symbol comes once, after both, with both declarations. -/
theorem dispatches_of_not_cancelled_partialClass :
    (watching.run partialClass).cancelled = false ∧
      watching.Dispatches partialClass
        [.node 0 0 1 0, .node 0 0 0 0, .node 0 1 0 0, .node 0 1 1 0, .symbol 0 0 0] ∧
      (watching.sites partialClass classWatcher 0).map (fun d => (d.unit.path.text, d.node))
        = [("Widget.cs", 0), ("Widget.Events.cs", 0)] := by
  have hrun : (watching.run partialClass).cancelled = false := rfl
  obtain ⟨-, hdispatches, -⟩ := dispatches_of_not_cancelled watching partialClass hrun
  refine ⟨hrun, hdispatches _ ⟨[_, _, _, _], ?_, rfl⟩, rfl⟩
  have hrest : Interleaving [[.node 0 0 0 0, .node 0 1 0 0], [Call.node 0 1 1 0]]
      [.node 0 0 0 0, .node 0 1 0 0, .node 0 1 1 0] := Interleaving.flatten _
  exact @Interleaving.push _ [_] [] _ _ _ hrest

end Engine

end TreeLint
