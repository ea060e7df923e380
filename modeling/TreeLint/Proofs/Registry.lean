/-
TreeLint/Proofs/Registry.lean

Which rule an id stands for, when several analyzers list rules with that id.

A registry puts each rule in its place and leaves a rule with the same id where
it is, so it answers with the first rule listed (`Registry.get?_ofAnalyzers`).
An engine answers with the last one (`Engine.rule?_eq_getLast?`), and by that
one it decides what becomes of a diagnostic (`Engine.select?_eq_judge`).

So the two mean the same by an id exactly if the first and the last rule listed
with it are the same (`Engine.rule?_eq_get?_iff`), and an engine whose analyzers
agree on every id shows what its registry would have it show
(`Engine.finish_eq_of_unambiguous`).
-/
import Mathlib.Data.String.Basic
import TreeLint.Analysis.Engine
import TreeLint.Registry

namespace TreeLint

/-- The rules that analyzers list, in order. -/
def listedRules (analyzers : List Analyzer) : List Rule := analyzers.flatMap (·.rules)

/-- The rules that analyzers list with an id, in order. -/
def listedWith (analyzers : List Analyzer) (id : String) : List Rule :=
  (listedRules analyzers).filter (·.id == id)

theorem listedWith_ne_nil {analyzers : List Analyzer} {id : String}
    (h : ∃ a ∈ analyzers, ∃ r ∈ a.rules, r.id = id) : listedWith analyzers id ≠ [] := by
  obtain ⟨a, ha, r, hr, hid⟩ := h
  have hlisted : r ∈ listedRules analyzers := List.mem_flatMap.mpr ⟨a, ha, hr⟩
  exact List.ne_nil_of_mem (List.mem_filter.mpr ⟨hlisted, beq_iff_eq.mpr hid⟩)

/-! ### Registries -/

namespace Registry

variable {rules : List Rule} {r : Rule}

/-- The ids are in order, and different. -/
def Sorted (rules : List Rule) : Prop := rules.Pairwise fun r s => r.id < s.id

theorem mem_put {s : Rule} (h : s ∈ put r rules) : s = r ∨ s ∈ rules := by
  induction rules with
  | nil => exact .inl (List.mem_singleton.mp h)
  | cons first rest ih =>
    rw [put] at h
    split at h
    · exact List.mem_cons.mp h
    · split at h
      · exact .inr h
      · rcases List.mem_cons.mp h with rfl | h
        · exact .inr List.mem_cons_self
        · exact (ih h).imp_right (List.mem_cons_of_mem first)

theorem sorted_put (h : Sorted rules) (r : Rule) : Sorted (put r rules) := by
  induction rules with
  | nil => exact List.pairwise_singleton _ _
  | cons first rest ih =>
    obtain ⟨hfirst, hrest⟩ := List.pairwise_cons.mp h
    rw [put]
    split
    · rename_i hlt
      refine List.pairwise_cons.mpr ⟨fun s hs => ?_, h⟩
      rcases List.mem_cons.mp hs with rfl | hs
      · exact hlt
      · exact hlt.trans (hfirst s hs)
    · rename_i hnlt
      split
      · exact h
      · rename_i hne
        refine List.pairwise_cons.mpr ⟨fun s hs => ?_, ih hrest⟩
        rcases mem_put hs with rfl | hs
        · exact (lt_trichotomy s.id first.id).resolve_left hnlt |>.resolve_left hne
        · exact hfirst s hs

/-- A rule is found that stands there, else the one that is put in. -/
theorem find?_put (h : Sorted rules) (r : Rule) (id : String) :
    (put r rules).find? (·.id == id) = (rules.find? (·.id == id)).or ([r].find? (·.id == id)) := by
  induction rules with
  | nil => rfl
  | cons first rest ih =>
    obtain ⟨hfirst, hrest⟩ := List.pairwise_cons.mp h
    rw [put]
    split
    · rename_i hlt
      -- none of the rules behind has the id of the new one
      cases hid : r.id == id with
      | false => simp [hid]
      | true =>
        have hnone : (first :: rest).find? (·.id == id) = none := by
          rw [List.find?_eq_none]
          intro s hs
          rw [beq_iff_eq, ← beq_iff_eq.mp hid]
          rcases List.mem_cons.mp hs with rfl | hs
          · exact hlt.ne'
          · exact (hlt.trans (hfirst s hs)).ne'
        rw [hnone, List.find?_cons, hid]
        simp [hid]
    · split
      · rename_i heq
        rw [List.find?_cons (a := first)]
        cases hid : first.id == id with
        | true => rfl
        | false => simp [heq, hid]
      · rw [List.find?_cons, List.find?_cons (a := first), ih hrest]
        cases first.id == id <;> rfl

/-- A registry answers with the first rule listed. -/
theorem get?_ofAnalyzers (analyzers : List Analyzer) (id : String) :
    (ofAnalyzers analyzers).get? id = (listedWith analyzers id).head? := by
  have hfold : ∀ listed rules : List Rule, Sorted rules →
      (listed.foldl (fun rules r => put r rules) rules).find? (·.id == id)
        = (rules.find? (·.id == id)).or (listed.find? (·.id == id)) := by
    intro listed
    induction listed with
    | nil => exact fun rules _ => (Option.or_none ..).symm
    | cons r listed ih =>
      intro rules hrules
      rw [List.foldl_cons, ih _ (sorted_put hrules r), find?_put hrules, Option.or_assoc,
        ← List.find?_append]
      rfl
  rw [listedWith, List.head?_filter]
  exact hfold (listedRules analyzers) [] .nil

end Registry

/-! ### Engines -/

namespace Engine

variable {e : Engine} {id : String}

/-- An engine answers with the last rule listed. -/
theorem rule?_eq_getLast? (e : Engine) (id : String) :
    e.rule? id = (listedWith e.analyzers id).getLast? := by
  rw [listedWith, ← List.head?_reverse, ← List.filter_reverse, List.head?_filter]
  rfl

/-- What becomes of a diagnostic by a rule: none if the rule is not on or ignored in the file, else
the diagnostic with the severity that is set for the rule. -/
def judge (e : Engine) (r : Rule) (d : Diagnostic) : Option Diagnostic :=
  if !e.config.isEnabled r || e.config.ignoresInFile r d.location.file then none
  else some { d with severity := (e.config.severity? r).getD d.severity }

theorem select?_eq_judge {r : Rule} {d : Diagnostic} (h : e.rule? d.ruleId = some r) :
    e.select? d = e.judge r d := by
  rw [select?, h]
  rfl

/-- **What an id means.**  Of the rules that are listed with an id, the registry has the first, and
the engine judges diagnostics with that id by the last.  So both mean the same rule exactly if the
first and the last are the same. -/
theorem rule?_eq_get?_iff (e : Engine) (h : ∃ a ∈ e.analyzers, ∃ r ∈ a.rules, r.id = id) :
    ∃ first last, (listedWith e.analyzers id).head? = some first ∧
      (listedWith e.analyzers id).getLast? = some last ∧
      (Registry.ofAnalyzers e.analyzers).get? id = some first ∧
      (∀ d : Diagnostic, d.ruleId = id → e.select? d = e.judge last d) ∧
      (e.rule? id = (Registry.ofAnalyzers e.analyzers).get? id ↔ first = last) := by
  have hlisted := listedWith_ne_nil h
  have hfirst := List.head?_eq_some_head hlisted
  have hlast := List.getLast?_eq_some_getLast hlisted
  have hregistry := Registry.get?_ofAnalyzers e.analyzers id
  have hrule := e.rule?_eq_getLast? id
  rw [hfirst] at hregistry
  rw [hlast] at hrule
  refine ⟨_, _, hfirst, hlast, hregistry, ?_, ?_⟩
  · rintro d rfl
    exact select?_eq_judge hrule
  · rw [hrule, hregistry, Option.some.injEq, eq_comm]

/-- If the analyzers agree on every id, what is shown is what the rules of the registry let
through. -/
theorem finish_eq_of_unambiguous (e : Engine)
    (h : ∀ r ∈ listedRules e.analyzers, ∀ s ∈ listedRules e.analyzers, r.id = s.id → r = s)
    (reported : List Diagnostic) :
    e.finish reported = Diagnostic.sort (reported.filterMap fun d =>
      match (Registry.ofAnalyzers e.analyzers).get? d.ruleId with
      | none => some d
      | some r => e.judge r d) := by
  have hselect : ∀ d, e.select? d =
      match (Registry.ofAnalyzers e.analyzers).get? d.ruleId with
      | none => some d
      | some r => e.judge r d := by
    intro d
    have hregistry := Registry.get?_ofAnalyzers e.analyzers d.ruleId
    have hrule := e.rule?_eq_getLast? d.ruleId
    rcases hlisted : listedWith e.analyzers d.ruleId with - | ⟨r, rs⟩
    · rw [hlisted] at hregistry hrule
      rw [hregistry, select?, hrule]
      rfl
    · have hsame : ∀ s ∈ listedWith e.analyzers d.ruleId, s = r := by
        intro s hs
        have hr : r ∈ listedWith e.analyzers d.ruleId := hlisted ▸ List.mem_cons_self
        obtain ⟨hs, hid⟩ := List.mem_filter.mp hs
        obtain ⟨hr, hid'⟩ := List.mem_filter.mp hr
        exact h s hs r hr ((beq_iff_eq.mp hid).trans (beq_iff_eq.mp hid').symm)
      have hlast : e.rule? d.ruleId = some r := by
        rw [hrule, List.getLast?_eq_some_getLast (hlisted ▸ List.cons_ne_nil r rs)]
        exact congrArg some (hsame _ (List.getLast_mem _))
      rw [hlisted] at hregistry
      rw [hregistry]
      exact select?_eq_judge hlast
  rw [finish]
  exact congrArg Diagnostic.sort (List.filterMap_congr fun d _ => hselect d)

/-- An engine with two analyzers that list rules with the same id.  The rule of the first is on,
that of the second is off. -/
def twiceClaimed : Engine where
  config := {}
  analyzers :=
    let rule : Rule := { (default : Rule) with id := "TS0001", enabledByDefault := true }
    [{ name := "first", rules := [rule] },
      { name := "second", rules := [{ rule with enabledByDefault := false }] }]
  generatedGlobs := []

theorem exists_mem_rules_twiceClaimed :
    ∃ a ∈ twiceClaimed.analyzers, ∃ r ∈ a.rules, r.id = "TS0001" :=
  ⟨_, List.mem_cons_self, _, List.mem_singleton_self _, rfl⟩

theorem rule?_eq_get?_iff_twiceClaimed :
    (∃ a ∈ twiceClaimed.analyzers, ∃ r ∈ a.rules, r.id = "TS0001") ∧
      ((Registry.ofAnalyzers twiceClaimed.analyzers).get? "TS0001").map (·.enabledByDefault)
        = some true ∧
      ∀ d : Diagnostic, d.ruleId = "TS0001" → twiceClaimed.select? d = none := by
  obtain ⟨first, last, hfirst, hlast, hregistry, hselect, -⟩ :=
    rule?_eq_get?_iff twiceClaimed exists_mem_rules_twiceClaimed
  refine ⟨exists_mem_rules_twiceClaimed, ?_, fun d hd => ?_⟩
  · rw [hregistry, ← hfirst]
    rfl
  · obtain rfl := Option.some.inj hlast
    rw [hselect d hd]
    rfl

/-- Registry and engine can mean different rules by an id, and then a diagnostic is not shown that
the rule of the registry lets through. -/
theorem not_rule?_eq_get? :
    (¬ ∀ (e : Engine) (id : String), (∃ a ∈ e.analyzers, ∃ r ∈ a.rules, r.id = id) →
      e.rule? id = (Registry.ofAnalyzers e.analyzers).get? id) ∧
    ∃ r d, (Registry.ofAnalyzers twiceClaimed.analyzers).get? d.ruleId = some r ∧
      twiceClaimed.judge r d = some d ∧ twiceClaimed.select? d = none := by
  constructor
  · intro h
    have heq := h twiceClaimed "TS0001" exists_mem_rules_twiceClaimed
    have hoff : (twiceClaimed.rule? "TS0001").map (·.enabledByDefault) = some false := rfl
    rw [heq] at hoff
    have hon : ((Registry.ofAnalyzers twiceClaimed.analyzers).get? "TS0001").map
        (·.enabledByDefault) = some true := rfl
    rw [hon] at hoff
    cases hoff
  · exact ⟨_, { (default : Diagnostic) with ruleId := "TS0001" }, rfl, rfl, rfl⟩

end Engine

end TreeLint
