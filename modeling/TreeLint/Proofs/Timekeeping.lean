/-
TreeLint/Proofs/Timekeeping.lean

What timings come to.

The timings of a report come about by recording invocations and by merging reports
(`Timekeeping`).  Whatever the order of these, what is entered under the name of an
analyzer is the sum of the times that were recorded for it, and the sum of the
numbers of invocations in 64 bits (`Timekeeping.enters_report`).

An average is taken with the last 32 bits of the number (`Timing.average?_eq`).  So
it is the quotient of the sums as long as there are fewer than `2 ^ 32` invocations,
and the table can be written unless some number ends in 32 zero bits without being
zero as a whole (`Timekeeping.averages_recorded`).
-/
import Mathlib.Algebra.Group.Nat.Defs
import TreeLint.Report
import TreeLint.Proofs.Dict
import TreeLint.Proofs.Tree.Copies

namespace TreeLint

/-! ### Averages -/

namespace Timing

variable {t : Timing} {elapsed calls : Nat}

/-- The average in terms of the number of invocations, which only its last 64 bits are left of. -/
theorem average?_eq (htotal : t.total = elapsed) (hcount : t.count = .ofNat calls) :
    t.average? =
      if calls % 2 ^ 64 = 0 then some 0
      else if calls % 2 ^ 32 = 0 then none
      else some (elapsed / (calls % 2 ^ 32)) := by
  have hzero : t.count = 0 ↔ calls % 2 ^ 64 = 0 := by
    rw [hcount, ← UInt64.toNat_inj]
    simp
  have hlow : t.count.toUInt32.toNat = calls % 2 ^ 32 := by
    rw [hcount]
    simp
  simp only [average?, hzero, hlow, htotal]

end Timing

/-! ### Keeping time -/

/-- What is entered for an analyzer after that many invocations that took that long altogether. -/
def Enters (entry : Option Timing) (elapsed calls : Nat) : Prop :=
  match entry with
  | none => elapsed = 0 ∧ calls = 0
  | some t => t.total = elapsed ∧ t.count = .ofNat calls

/-- Entries of two histories come to an entry of both. -/
theorem Enters.merge {entry entry' : Option Timing} {elapsed calls elapsed' calls' : Nat}
    (h : Enters entry elapsed calls) (h' : Enters entry' elapsed' calls') :
    Enters (entry.merge Timing.add entry') (elapsed + elapsed') (calls + calls') := by
  cases entry with
  | none =>
    obtain ⟨rfl, rfl⟩ := h
    rwa [Option.merge_none_left, Nat.zero_add, Nat.zero_add]
  | some t =>
    cases entry' with
    | none =>
      obtain ⟨rfl, rfl⟩ := h'
      exact h
    | some t' =>
      obtain ⟨rfl, hcount⟩ := h
      obtain ⟨rfl, hcount'⟩ := h'
      refine ⟨rfl, ?_⟩
      rw [UInt64.ofNat_add, ← hcount, ← hcount']
      rfl

namespace Report

/-- The report with invocations of an analyzer recorded. -/
def record (r : Report) (analyzer : String) (t : Timing) : Report :=
  { r with timings := r.timings.insertWith Timing.add analyzer t }

/-- The table can be written exactly if there is an average for every entry. -/
theorem isSome_timingTable?_iff (r : Report) :
    r.timingTable?.isSome = true ↔
      ∀ entry ∈ r.timings.entries, (entry.2.average?).isSome = true := by
  have hrow : ∀ entry : String × Timing,
      (∃ row, timingRow? entry = some row) ↔ (entry.2.average?).isSome = true := by
    rintro ⟨name, t⟩
    rw [timingRow?]
    cases t.average? with
    | none => simp
    | some average => simp
  have hrows : (∃ rows, r.sortedTimings.mapM timingRow? = some rows) ↔
      ∀ entry ∈ r.timings.entries, (entry.2.average?).isSome = true := by
    rw [Element.exists_mapM_eq_some_iff]
    simp only [hrow, sortedTimings, List.mem_mergeSort]
  rw [timingTable?]
  split
  · rename_i hempty
    rw [List.isEmpty_iff] at hempty
    simp [hempty]
  · rw [← hrows]
    cases r.sortedTimings.mapM timingRow? with
    | none => simp
    | some rows => simp

end Report

/-- How the timings of a report come about. -/
inductive Timekeeping where
  | start
  | record (before : Timekeeping) (analyzer : String) (elapsed calls : Nat)
  | merge (into other : Timekeeping)
  deriving Repr

namespace Timekeeping

/-- The report that comes about. -/
def report : Timekeeping → Report
  | start => {}
  | record before analyzer elapsed calls =>
    before.report.record analyzer ⟨elapsed, .ofNat calls⟩
  | merge into other => into.report.merge other.report

/-- How long all recorded invocations of an analyzer took. -/
def elapsed (name : String) : Timekeeping → Nat
  | start => 0
  | record before analyzer t _ => before.elapsed name + if name = analyzer then t else 0
  | merge into other => into.elapsed name + other.elapsed name

/-- How many invocations of an analyzer have been recorded. -/
def calls (name : String) : Timekeeping → Nat
  | start => 0
  | record before analyzer _ n => before.calls name + if name = analyzer then n else 0
  | merge into other => into.calls name + other.calls name

/-- The average that the report has for an analyzer. -/
def average? (k : Timekeeping) (name : String) : Option Nat :=
  (k.report.timings.get? name).bind Timing.average?

/-- **Timings are sums.**  What is entered for an analyzer has the time that all its invocations
took, and their number in 64 bits. -/
theorem enters_report (k : Timekeeping) (name : String) :
    Enters (k.report.timings.get? name) (k.elapsed name) (k.calls name) := by
  induction k with
  | start => exact ⟨rfl, rfl⟩
  | record before analyzer elapsed calls ih =>
    show Enters ((before.report.timings.insertWith _ analyzer _).get? name) _ _
    rw [Dict.get?_insertWith, Timekeeping.elapsed, Timekeeping.calls]
    by_cases h : name = analyzer
    · subst h
      rw [if_pos rfl, if_pos rfl, if_pos rfl]
      exact ih.merge ⟨rfl, rfl⟩
    · rw [if_neg h, if_neg h, if_neg h]
      exact ih
  | merge into other ihinto ihother =>
    show Enters ((Report.mergeTimings into.report.timings other.report.timings).get? name) _ _
    rw [Report.mergeTimings, Dict.get?_mergeWith]
    exact ihinto.merge ihother

theorem average?_eq (k : Timekeeping) {name : String} (h : 0 < k.calls name) :
    k.average? name =
      if k.calls name % 2 ^ 64 = 0 then some 0
      else if k.calls name % 2 ^ 32 = 0 then none
      else some (k.elapsed name / (k.calls name % 2 ^ 32)) := by
  have henters := k.enters_report name
  rw [average?]
  cases hentry : k.report.timings.get? name with
  | none =>
    rw [hentry] at henters
    exact absurd henters.2 (Nat.ne_of_gt h)
  | some t =>
    rw [hentry] at henters
    exact Timing.average?_eq henters.1 henters.2

/-- An entry has an average unless its number of invocations ends in 32 zero bits without being
zero in 64. -/
theorem isSome_average?_iff (k : Timekeeping) {name : String} {t : Timing}
    (ht : k.report.timings.get? name = some t) :
    (t.average?).isSome = true ↔ (2 ^ 32 ∣ k.calls name → 2 ^ 64 ∣ k.calls name) := by
  have henters := k.enters_report name
  rw [ht] at henters
  rw [Timing.average?_eq henters.1 henters.2, Nat.dvd_iff_mod_eq_zero, Nat.dvd_iff_mod_eq_zero]
  split
  · rename_i hzero
    exact iff_of_true rfl fun _ => hzero
  · rename_i hzero
    split
    · rename_i hlow
      exact iff_of_false Bool.false_ne_true fun h => hzero (h hlow)
    · rename_i hlow
      exact iff_of_true rfl fun h => absurd h hlow

/-- **Averages of recorded invocations.**  For an analyzer with fewer than `2 ^ 32` invocations the
average is the quotient of the time they took and their number, rounded down.  With more of them
only the last 32 bits of the number count: where these are zero, there is no average and the table
cannot be written, unless the last 64 bits are zero, for which the average is zero. -/
theorem averages_recorded (k : Timekeeping) :
    (∀ name, 0 < k.calls name → k.calls name < 2 ^ 32 →
      k.average? name = some (k.elapsed name / k.calls name)) ∧
    (∀ name, 2 ^ 32 ≤ k.calls name →
      k.average? name =
        if 2 ^ 64 ∣ k.calls name then some 0
        else if 2 ^ 32 ∣ k.calls name then none
        else some (k.elapsed name / (k.calls name % 2 ^ 32))) ∧
    (k.report.timingTable?.isSome = true ↔
      ∀ name, 2 ^ 32 ∣ k.calls name → 2 ^ 64 ∣ k.calls name) := by
  refine ⟨?_, ?_, ?_⟩
  · intro name hpos hlt
    have hlow : k.calls name % 2 ^ 32 = k.calls name := Nat.mod_eq_of_lt hlt
    have hall : k.calls name % 2 ^ 64 = k.calls name :=
      Nat.mod_eq_of_lt (Nat.lt_trans hlt (by decide))
    rw [k.average?_eq hpos, hlow, hall, if_neg (Nat.ne_of_gt hpos), if_neg (Nat.ne_of_gt hpos)]
  · intro name hle
    rw [k.average?_eq (Nat.lt_of_lt_of_le (by decide) hle)]
    simp only [Nat.dvd_iff_mod_eq_zero]
  · rw [Report.isSome_timingTable?_iff]
    constructor
    · intro h name
      have henters := k.enters_report name
      cases ht : k.report.timings.get? name with
      | none =>
        rw [ht] at henters
        rw [henters.2]
        exact fun _ => Nat.dvd_zero _
      | some t =>
        have hmem := k.report.timings.mem_entries_iff.mpr ht
        exact (k.isSome_average?_iff ht).mp (h _ hmem)
    · rintro h ⟨name, t⟩ hmem
      have ht := k.report.timings.mem_entries_iff.mp hmem
      exact (k.isSome_average?_iff ht).mpr (h name)

/-- An analyzer that ran for a microsecond in each of two reports. -/
def twoReports : Timekeeping :=
  .merge (.record .start "switch-enum" 1000 2) (.record .start "switch-enum" 1000 1)

theorem averages_recorded_twoReports :
    (0 < twoReports.calls "switch-enum" ∧ twoReports.calls "switch-enum" < 2 ^ 32) ∧
      twoReports.average? "switch-enum" = some 666 :=
  ⟨by decide, twoReports.averages_recorded.1 "switch-enum" (by decide) (by decide)⟩

/-- As many invocations as 32 bits can count, and then some more in another report. -/
def tooMany (more : Nat) : Timekeeping :=
  .merge (.record .start "switch-enum" (2 ^ 32 - 1) (2 ^ 32 - 1))
    (.record .start "switch-enum" more more)

/-- With one more invocation the table cannot be written, and with two more the average of
invocations that took a nanosecond each is more than four seconds. -/
theorem not_averages_exact :
    (¬ ∀ k : Timekeeping, k.report.timingTable?.isSome = true) ∧
      ¬ ∀ (k : Timekeeping) (name : String), 0 < k.calls name →
        k.average? name = some (k.elapsed name / k.calls name) := by
  have hnone : (tooMany 1).report.timingTable? = none := by decide +kernel
  have haverage : (tooMany 2).average? "switch-enum" = some (2 ^ 32 + 1) := by decide +kernel
  have hquotient : (tooMany 2).elapsed "switch-enum" / (tooMany 2).calls "switch-enum" = 1 := by
    decide +kernel
  constructor
  · intro h
    have hsome := h (tooMany 1)
    rw [hnone] at hsome
    cases hsome
  · intro h
    have hexact := h (tooMany 2) "switch-enum" (by decide)
    rw [haverage, hquotient] at hexact
    revert hexact
    decide

end Timekeeping

end TreeLint
