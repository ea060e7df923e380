/-
TreeLint/Proofs/Report.lean

What merged reports keep.

A report on one analysis has its diagnostics in order, and counts each file once.
Merging puts the diagnostics one after the other and adds up the counts, so a
merged report is a *tally* of its parts (`Report.Tallies`): the numbers of
diagnostics are right, but nothing is sorted again, and a file is counted anew in
every part.

So the order is kept exactly if the parts come in order, and there are as many
files as were counted exactly if no file is in two parts
(`Report.filesWith_flatten_eq_iff`).
-/
import TreeLint.Proofs.Analysis.Schedule
import Mathlib.Data.Finset.Card

namespace TreeLint

/-- The first diagnostic does not come after the second one, by file, start, end and rule. -/
def Diagnostic.NoLater (a b : Diagnostic) : Prop := (a.compare b != .gt) = true

theorem Diagnostic.NoLater.file {a b : Diagnostic} (h : a.NoLater b) :
    a.location.file.compare b.location.file ≠ .gt := by
  intro hgt
  rw [NoLater, Diagnostic.compare, hgt] at h
  exact Bool.false_ne_true h

namespace Report

/-! ### Files without repetition -/

variable {acc ps qs : List Path} {p : Path} {k : List Component}

/-- What paths are told apart by. -/
def keys (ps : List Path) : List (List Component) := ps.map (·.components)

theorem keys_append (ps qs : List Path) : keys (ps ++ qs) = keys ps ++ keys qs :=
  List.map_append

/-- Adds a path, unless it is there. -/
def addPath (acc : List Path) (p : Path) : List Path :=
  if acc.any (·.same p) then acc else acc ++ [p]

theorem distinctPaths_eq_foldl (ps : List Path) : distinctPaths ps = ps.foldl addPath [] := rfl

theorem any_same_iff : acc.any (·.same p) = true ↔ p.components ∈ keys acc := by
  rw [List.any_eq_true, keys, List.mem_map]
  simp only [Path.same_iff]

theorem mem_keys_addPath : k ∈ keys (addPath acc p) ↔ k ∈ keys acc ∨ k = p.components := by
  rw [addPath]
  split
  · rename_i hin
    rw [any_same_iff] at hin
    exact ⟨.inl, fun h => h.elim id fun heq => heq ▸ hin⟩
  · rw [keys_append, List.mem_append]
    exact or_congr_right List.mem_singleton

theorem nodup_keys_addPath (h : (keys acc).Nodup) : (keys (addPath acc p)).Nodup := by
  rw [addPath]
  split
  · exact h
  · rename_i hout
    rw [any_same_iff] at hout
    rw [keys_append]
    exact List.nodup_append_comm.mp (List.nodup_cons.mpr ⟨hout, h⟩)

theorem mem_keys_foldl_addPath :
    k ∈ keys (ps.foldl addPath acc) ↔ k ∈ keys acc ∨ k ∈ keys ps := by
  induction ps generalizing acc with
  | nil => exact (or_iff_left List.not_mem_nil).symm
  | cons p ps ih =>
    rw [List.foldl_cons, ih, mem_keys_addPath, or_assoc]
    exact or_congr_right List.mem_cons.symm

theorem nodup_keys_foldl_addPath (h : (keys acc).Nodup) :
    (keys (ps.foldl addPath acc)).Nodup := by
  induction ps generalizing acc with
  | nil => exact h
  | cons p ps ih => exact ih (nodup_keys_addPath h)

theorem mem_keys_distinctPaths : k ∈ keys (distinctPaths ps) ↔ k ∈ keys ps := by
  rw [distinctPaths_eq_foldl, mem_keys_foldl_addPath]
  exact or_iff_right List.not_mem_nil

theorem nodup_keys_distinctPaths (ps : List Path) : (keys (distinctPaths ps)).Nodup :=
  nodup_keys_foldl_addPath List.nodup_nil

/-- As many paths are left as there are different ones. -/
theorem length_distinctPaths (ps : List Path) :
    (distinctPaths ps).length = (keys ps).toFinset.card := by
  have hset : (keys (distinctPaths ps)).toFinset = (keys ps).toFinset := by
    ext k
    rw [List.mem_toFinset, List.mem_toFinset, mem_keys_distinctPaths]
  rw [← hset, List.toFinset_card_of_nodup (nodup_keys_distinctPaths ps), keys, List.length_map]

theorem length_distinctPaths_eq_iff :
    (distinctPaths ps).length = ps.length ↔ (keys ps).Nodup := by
  -- as a set, a list without repetition and no other has as many elements
  rw [length_distinctPaths, ← Multiset.coe_nodup, ← Multiset.toFinset_card_eq_card_iff_nodup,
    Multiset.coe_card, keys, List.length_map]
  rfl

/-! ### Files of several lists of diagnostics -/

variable {severity : Severity} {ds ds' : List Diagnostic} {parts : List (List Diagnostic)}

/-- The files with a diagnostic of a severity, each of them once. -/
def filesOf (severity : Severity) (ds : List Diagnostic) : List Path :=
  distinctPaths ((ds.filter (·.severity == severity)).map (·.location.file))

/-- No file has diagnostics of the severity in both lists. -/
def Disjoint (severity : Severity) (ds ds' : List Diagnostic) : Prop :=
  ∀ d ∈ ds, ∀ d' ∈ ds', d.severity = severity → d'.severity = severity →
    ¬ d.location.file.same d'.location.file = true

theorem mem_keys_filesOf : k ∈ keys (filesOf severity ds) ↔
    ∃ d ∈ ds, d.severity = severity ∧ d.location.file.components = k := by
  rw [filesOf, mem_keys_distinctPaths, keys, List.map_map, List.mem_map]
  simp only [List.mem_filter, beq_iff_eq, and_assoc, Function.comp_apply]

theorem disjoint_keys_filesOf_iff :
    List.Disjoint (keys (filesOf severity ds)) (keys (filesOf severity ds'))
      ↔ Disjoint severity ds ds' := by
  constructor
  · intro h d hd d' hd' hseverity hseverity' hsame
    exact h (mem_keys_filesOf.mpr ⟨d, hd, hseverity, rfl⟩)
      (mem_keys_filesOf.mpr ⟨d', hd', hseverity', (Path.same_iff.mp hsame).symm⟩)
  · intro h k hk hk'
    obtain ⟨d, hd, hseverity, hcomponents⟩ := mem_keys_filesOf.mp hk
    obtain ⟨d', hd', hseverity', hcomponents'⟩ := mem_keys_filesOf.mp hk'
    exact h d hd d' hd' hseverity hseverity'
      (Path.same_iff.mpr (hcomponents.trans hcomponents'.symm))

/-- The files of several lists are those of all of them, with repetitions. -/
theorem filesWith_flatten (severity : Severity) (parts : List (List Diagnostic)) :
    filesWith severity parts.flatten = (distinctPaths (parts.flatMap (filesOf severity))).length := by
  -- leaving out repetitions in each part first does not change which files there are
  have hmem : ∀ k, k ∈ keys (filesOf severity parts.flatten)
      ↔ k ∈ keys (parts.flatMap (filesOf severity)) := by
    intro k
    rw [mem_keys_filesOf, keys, List.map_flatMap, List.mem_flatMap]
    constructor
    · rintro ⟨d, hd, hk⟩
      obtain ⟨ds, hds, hd⟩ := List.mem_flatten.mp hd
      exact ⟨ds, hds, mem_keys_filesOf.mpr ⟨d, hd, hk⟩⟩
    · rintro ⟨ds, hds, hk⟩
      obtain ⟨d, hd, hk⟩ := mem_keys_filesOf.mp hk
      exact ⟨d, List.mem_flatten.mpr ⟨ds, hds, hd⟩, hk⟩
  rw [filesWith, length_distinctPaths, length_distinctPaths]
  congr 1
  ext k
  rw [List.mem_toFinset, List.mem_toFinset, ← hmem, filesOf, mem_keys_distinctPaths]

/-- No file is in two lists exactly if there are as many as in the lists one by one. -/
theorem filesWith_flatten_eq_iff :
    filesWith severity parts.flatten = (parts.flatMap (filesOf severity)).length
      ↔ parts.Pairwise (Disjoint severity) := by
  rw [filesWith_flatten, length_distinctPaths_eq_iff, keys, List.map_flatMap, List.nodup_flatMap]
  have hpairs : parts.Pairwise (Disjoint severity) ↔ parts.Pairwise
      (Function.onFun List.Disjoint fun ds => (filesOf severity ds).map (·.components)) :=
    List.Pairwise.iff fun _ _ => disjoint_keys_filesOf_iff.symm
  rw [hpairs]
  exact and_iff_right fun ds _ => nodup_keys_distinctPaths _

theorem filesWith_flatten_le (severity : Severity) (parts : List (List Diagnostic)) :
    filesWith severity parts.flatten ≤ (parts.flatMap (filesOf severity)).length := by
  rw [filesWith_flatten, length_distinctPaths]
  exact (List.toFinset_card_le _).trans_eq (List.length_map _)

/-! ### Tallies -/

variable {r : Report}

/-- A report that has come out of merging reports with these diagnostics: the diagnostics one after
the other, counted as they are, and the files of each part counted on their own. -/
structure Tallies (r : Report) (parts : List (List Diagnostic)) : Prop where
  diagnostics : r.diagnostics = parts.flatten
  count : r.errorCount = .ofNat (countOf .error parts.flatten) ∧
    r.warningCount = .ofNat (countOf .warning parts.flatten) ∧
    r.infoCount = .ofNat (countOf .info parts.flatten)
  units : r.unitsWithErrors = .ofNat (parts.flatMap (filesOf .error)).length ∧
    r.unitsWithWarnings = .ofNat (parts.flatMap (filesOf .warning)).length

theorem tallies_default : ({} : Report).Tallies [] := ⟨rfl, ⟨rfl, rfl, rfl⟩, rfl, rfl⟩

/-- Merging puts the parts together. -/
theorem Tallies.merge {r' : Report} {parts' : List (List Diagnostic)} (h : r.Tallies parts)
    (h' : r'.Tallies parts') : (r.merge r').Tallies (parts ++ parts') := by
  have hcount : ∀ severity, countOf severity (parts ++ parts').flatten
      = countOf severity parts.flatten + countOf severity parts'.flatten := by
    intro severity
    rw [List.flatten_append, countOf, List.countP_append]
    rfl
  have hunits : ∀ severity, ((parts ++ parts').flatMap (filesOf severity)).length
      = (parts.flatMap (filesOf severity)).length + (parts'.flatMap (filesOf severity)).length := by
    intro severity
    rw [List.flatMap_append, List.length_append]
  -- the counts of the report are these numbers in 64 bits, where they add up just the same
  obtain ⟨hdiagnostics, ⟨herrors, hwarnings, hinfos⟩, herrorUnits, hwarningUnits⟩ := h
  obtain ⟨hdiagnostics', ⟨herrors', hwarnings', hinfos'⟩, herrorUnits', hwarningUnits'⟩ := h'
  refine ⟨?_, ⟨?_, ?_, ?_⟩, ?_, ?_⟩
  · rw [Report.merge, hdiagnostics, hdiagnostics', List.flatten_append]
  · rw [Report.merge, herrors, herrors', hcount, UInt64.ofNat_add]
  · rw [Report.merge, hwarnings, hwarnings', hcount, UInt64.ofNat_add]
  · rw [Report.merge, hinfos, hinfos', hcount, UInt64.ofNat_add]
  · rw [Report.merge, herrorUnits, herrorUnits', hunits, UInt64.ofNat_add]
  · rw [Report.merge, hwarningUnits, hwarningUnits', hunits, UInt64.ofNat_add]

end Report

namespace Engine

open Report

variable {e : Engine}

/-- What the analysis of each compilation shows. -/
def shown (e : Engine) (cs : List Compilation) : List (List Diagnostic) :=
  cs.map fun c => (e.analyze c).diagnostics

theorem analyze_tallies (e : Engine) (c : Compilation) :
    (e.analyze c).Tallies [(e.analyze c).diagnostics] := by
  have hflatten : [(e.analyze c).diagnostics].flatten = (e.analyze c).diagnostics :=
    List.flatten_singleton
  have hunits : ∀ severity, [(e.analyze c).diagnostics].flatMap (filesOf severity)
      = filesOf severity (e.analyze c).diagnostics :=
    fun severity => List.flatMap_singleton (filesOf severity) _
  refine ⟨hflatten.symm, ?_, ?_⟩
  · rw [hflatten]
    exact ⟨rfl, rfl, rfl⟩
  · rw [hunits, hunits]
    exact ⟨rfl, rfl⟩

theorem foldl_merge_tallies {r : Report} {parts : List (List Diagnostic)} (h : r.Tallies parts)
    (cs : List Compilation) :
    (cs.foldl (fun report c => report.merge (e.analyze c)) r).Tallies (parts ++ e.shown cs) := by
  induction cs generalizing r parts with
  | nil => rwa [shown, List.map_nil, List.append_nil]
  | cons c cs ih =>
    have hcons := ih (h.merge (e.analyze_tallies c))
    rwa [List.append_assoc] at hcons

/-- **Merged reports are tallies.**  Analysing compilations one after the other comes to all
diagnostics, each compilation's in order, with their numbers by severity.  The order of all of them
is right exactly if it is between every two compilations.  A file is counted in each compilation
where it has an error, or a warning; that is as often as there are such files exactly if no file has
them in two compilations. -/
theorem analyzeAll_tallies (e : Engine) (cs : List Compilation) :
    (e.analyzeAll cs).Tallies (e.shown cs) ∧
      (∀ ds ∈ e.shown cs, ds.Pairwise Diagnostic.NoLater) ∧
      ((e.analyzeAll cs).diagnostics.Pairwise Diagnostic.NoLater ↔
        (e.shown cs).Pairwise fun ds ds' => ∀ d ∈ ds, ∀ d' ∈ ds', d.NoLater d') ∧
      ∀ severity,
        filesWith severity (e.analyzeAll cs).diagnostics
            ≤ ((e.shown cs).flatMap (filesOf severity)).length ∧
          (filesWith severity (e.analyzeAll cs).diagnostics
              = ((e.shown cs).flatMap (filesOf severity)).length ↔
            (e.shown cs).Pairwise (Report.Disjoint severity)) := by
  have htallies : (e.analyzeAll cs).Tallies (e.shown cs) := foldl_merge_tallies tallies_default cs
  have hsorted : ∀ ds ∈ e.shown cs, ds.Pairwise Diagnostic.NoLater := by
    intro ds hds
    obtain ⟨c, -, rfl⟩ := List.mem_map.mp hds
    exact Diagnostic.pairwise_sort _
  rw [htallies.diagnostics]
  refine ⟨htallies, hsorted, ?_, ?_⟩
  · rw [List.pairwise_flatten]
    exact and_iff_right hsorted
  · exact fun severity => ⟨filesWith_flatten_le severity _, filesWith_flatten_eq_iff⟩

/-- An engine that warns of every block. -/
def blockWarning : Engine where
  config := {}
  analyzers :=
    let rule : Rule :=
      { (default : Rule) with enabledByDefault := true, defaultSeverity := .warning }
    [{ name := "blocks"
       rules := [rule]
       actions :=
         { onNode := [(.block, fun ctx =>
             { reports := [ctx.unit.diagnostic rule ctx.node.span .nothing []] })] } }]
  generatedGlobs := []

/-- Two files, each in a compilation of its own, and then both of them again. -/
def blocksTwice : List Compilation :=
  (twoBlocks.units ++ twoBlocks.units).map fun u => { units := [u] }

/-- The first file comes back after the second one, and both are counted again. -/
theorem analyzeAll_blocksTwice :
    let r := blockWarning.analyzeAll blocksTwice
    r.diagnostics.map (·.location.file) = [⟨"a.cs"⟩, ⟨"b.cs"⟩, ⟨"a.cs"⟩, ⟨"b.cs"⟩] ∧
      ¬ r.diagnostics.Pairwise Diagnostic.NoLater ∧
      r.unitsWithWarnings = 4 ∧ filesWith .warning r.diagnostics = 2 := by
  intro r
  have hfiles : r.diagnostics.map (·.location.file)
      = [⟨"a.cs"⟩, ⟨"b.cs"⟩, ⟨"a.cs"⟩, ⟨"b.cs"⟩] := by
    decide +kernel
  have hwarnings : (r.diagnostics.filter (·.severity == .warning)).map (·.location.file)
      = [⟨"a.cs"⟩, ⟨"b.cs"⟩, ⟨"a.cs"⟩, ⟨"b.cs"⟩] := by
    decide +kernel
  refine ⟨hfiles, ?_, by decide +kernel, ?_⟩
  · intro hsorted
    have hpaths : (r.diagnostics.map (·.location.file)).Pairwise fun p q => p.compare q ≠ .gt :=
      List.pairwise_map.mpr (hsorted.imp Diagnostic.NoLater.file)
    rw [hfiles] at hpaths
    revert hpaths
    decide
  · rw [filesWith, hwarnings]
    decide

end Engine

end TreeLint
