/-
TreeLint/Proofs/Diff/Patch.lean

A patch shows what changed, and applied to the old text it gives the new one.

A hunk is made from a range of places in a script, and its head counts lines of
two texts.  The two ways to say where it is agree: each place of a script has a
line in one text at least, so the numbers of a head leave only one place
(`Shown.StandsAt.unique`), and what is known of ranges holds for hunks
(`has_shown_iff`).

Applying goes through the hunks from a place on (`applyFrom_shown`).  Up to the
next range nothing changes, so those lines are the same in both texts.
-/
import TreeLint.Proofs.Diff.Hunks
import TreeLint.Proofs.Diff.Reading

namespace TreeLint.Diff

variable {α : Type} {s : List (Edit α)} {i j k place : Nat}

/-! ### Parts of a script -/

theorem take_append_extract (hij : i ≤ j) : s.take i ++ s.extract i j = s.take j := by
  rw [List.extract, ← List.take_add, Nat.add_sub_cancel' hij]

theorem extract_append_drop (hij : i ≤ j) : s.extract i j ++ s.drop j = s.drop i := by
  have hdrop : s.drop j = (s.drop i).drop (j - i) := by
    rw [List.drop_drop, Nat.add_sub_cancel' hij]
  rw [List.extract, hdrop, List.take_append_drop]

theorem length_extract (hj : j ≤ s.length) : (s.extract i j).length = j - i := by
  rw [List.extract, List.length_take, List.length_drop]
  omega

theorem isChange_extract_iff : IsChange (s.extract i j) k ↔ IsChange s (i + k) ∧ i + k < j := by
  have hlt : k < j - i ↔ i + k < j := by omega
  rw [IsChange, List.extract, List.getElem?_take, List.getElem?_drop]
  simp only [hlt]
  by_cases h : i + k < j <;> simp [IsChange, h]

/-- Where nothing changes, all entries are kept. -/
theorem isKept_of_mem_extract (h : ∀ k, i ≤ k → k < j → ¬IsChange s k) :
    ∀ e ∈ s.extract i j, e.isKept = true := by
  intro e he
  obtain ⟨k, hk⟩ := List.mem_iff_getElem?.mp he
  by_contra hkept
  obtain ⟨hchange, hlt⟩ := isChange_extract_iff.mp ⟨e, hk, eq_false_of_ne_true hkept⟩
  exact h (i + k) (Nat.le_add_right i k) hlt hchange

theorem isKept_of_mem_drop (h : ∀ k, i ≤ k → ¬IsChange s k) : ∀ e ∈ s.drop i, e.isKept = true := by
  intro e he
  refine isKept_of_mem_extract (j := s.length) (fun k hik _ => h k hik) e ?_
  rwa [List.extract, ← List.length_drop, List.take_length]

/-! ### Where a hunk stands -/

/-- The number of lines before `count` lines, from the number shown for the first of them. -/
def linesBefore (start count : Nat) : Nat := if count = 0 then start else start - 1

theorem linesBefore_lineNumber (before count : Nat) :
    linesBefore (Hunk.lineNumber before count) count = before := by
  rw [linesBefore, Hunk.lineNumber]
  split <;> split <;> omega

namespace Shown

/-- The number of lines of the old text before the hunk. -/
def oldBefore (h : Shown) : Nat := linesBefore h.oldStart h.oldCount

/-- The number of lines of the new text before the hunk. -/
def newBefore (h : Shown) : Nat := linesBefore h.newStart h.newCount

/-- The hunk is the part of a script from a place on, and its head says so.  Lines are numbered
from 1; where the hunk has no line of a text, the number is that of the lines before it. -/
structure StandsAt (h : Shown) (s : List (Edit String)) (place : Nat) : Prop where
  ne_nil : h.edits ≠ []
  part : h.edits <+: s.drop place
  oldCount : h.oldCount = (oldEntries h.edits).length
  newCount : h.newCount = (newEntries h.edits).length
  oldStart : h.oldStart = (oldEntries (s.take place)).length + if h.oldCount = 0 then 0 else 1
  newStart : h.newStart = (newEntries (s.take place)).length + if h.newCount = 0 then 0 else 1

/-- The hunk shows a place of a script. -/
def Has (h : Shown) (s : List (Edit String)) (i : Nat) : Prop :=
  ∃ place, h.StandsAt s place ∧ place ≤ i ∧ i < place + h.edits.length

variable {h : Shown} {s : List (Edit String)} {p q : Nat}

theorem StandsAt.lt_length (hp : h.StandsAt s p) : p < s.length := by
  have hpos := List.length_pos_iff.mpr hp.ne_nil
  have hle := hp.part.length_le
  rw [List.length_drop] at hle
  omega

theorem StandsAt.le_of_standsAt (hp : h.StandsAt s p) (hq : h.StandsAt s q) : q ≤ p := by
  by_contra hlt
  have hle : p ≤ q := Nat.le_of_lt (Nat.lt_of_not_le hlt)
  have hold : (oldEntries (s.take p)).length = (oldEntries (s.take q)).length :=
    Nat.add_right_cancel (hp.oldStart.symm.trans hq.oldStart)
  have hnew : (newEntries (s.take p)).length = (newEntries (s.take q)).length :=
    Nat.add_right_cancel (hp.newStart.symm.trans hq.newStart)
  rw [← take_append_extract hle, oldEntries_append, List.length_append] at hold
  rw [← take_append_extract hle, newEntries_append, List.length_append] at hnew
  -- every entry in between would be a line of one text or the other
  have hread := length_le_add (s.extract p q)
  rw [length_extract (Nat.le_of_lt hq.lt_length)] at hread
  omega

/-- A hunk stands at one place only. -/
theorem StandsAt.unique (hp : h.StandsAt s p) (hq : h.StandsAt s q) : p = q :=
  Nat.le_antisymm (hq.le_of_standsAt hp) (hp.le_of_standsAt hq)

end Shown

/-- Hunks show the changes of a script.  They stand in the script in order and apart from each
other; changes are in one hunk when at most six lines stand between neighbours on the way from one
to the other; and at most three lines are shown before the first and after the last of them. -/
structure Shows (s : List (Edit String)) (hs : List Shown) : Prop where
  stand : ∀ h ∈ hs, ∃ place, h.StandsAt s place
  apart : hs.Pairwise fun h h' =>
    h.oldBefore + h.oldCount < h'.oldBefore ∧ h.newBefore + h.newCount < h'.newBefore
  together : ∀ i j, IsChange s i → IsChange s j →
    ((∃ h ∈ hs, h.Has s i ∧ h.Has s j) ↔ Linked s i j)
  surrounded : ∀ h ∈ hs, ∃ first last, IsChange h.edits first ∧ IsChange h.edits last ∧
    (∀ i, IsChange h.edits i → first ≤ i ∧ i ≤ last) ∧
    first ≤ 3 ∧ h.edits.length - (last + 1) ≤ 3

/-! ### The hunks of a script -/

section Hunks

variable {s : List (Edit String)} {r r' : Range}

theorem edits_shown (s : List (Edit String)) (r : Range) :
    (hunkAt s r).shown.edits = s.extract r.start r.stop := rfl

theorem oldBefore_shown (s : List (Edit String)) (r : Range) :
    (hunkAt s r).shown.oldBefore = (oldEntries (s.take r.start)).length :=
  linesBefore_lineNumber _ _

theorem newBefore_shown (s : List (Edit String)) (r : Range) :
    (hunkAt s r).shown.newBefore = (newEntries (s.take r.start)).length :=
  linesBefore_lineNumber _ _

theorem lineNumber_eq (before count : Nat) :
    Hunk.lineNumber before count = before + if count = 0 then 0 else 1 := by
  rw [Hunk.lineNumber]
  split <;> split <;> omega

theorem standsAt_shown (hr : r ∈ ranges s) : (hunkAt s r).shown.StandsAt s r.start where
  ne_nil := by
    obtain ⟨hlt, hle⟩ := lt_of_mem_ranges hr
    rw [edits_shown, ← List.length_pos_iff, length_extract hle]
    omega
  part := List.take_prefix _ _
  oldCount := rfl
  newCount := rfl
  oldStart := lineNumber_eq _ _
  newStart := lineNumber_eq _ _

/-- The hunk of a range shows the places of the range. -/
theorem has_shown_iff (hr : r ∈ ranges s) : (hunkAt s r).shown.Has s i ↔ r.Has i := by
  obtain ⟨hlt, hle⟩ := lt_of_mem_ranges hr
  have hlength : r.start + (hunkAt s r).shown.edits.length = r.stop := by
    rw [edits_shown, length_extract hle]
    omega
  constructor
  · rintro ⟨place, hplace, hstart, hstop⟩
    obtain rfl := hplace.unique (standsAt_shown hr)
    exact ⟨hstart, hlength ▸ hstop⟩
  · rintro ⟨hstart, hstop⟩
    exact ⟨r.start, standsAt_shown hr, hstart, hlength.symm ▸ hstop⟩

/-- The line after a range is unchanged. -/
theorem not_isChange_stop (hr : r ∈ ranges s) : ¬IsChange s r.stop := by
  intro hchange
  obtain ⟨r', hr', hstart, hstop⟩ := exists_has_of_isChange hchange
  have hlt := (lt_of_mem_ranges hr).1
  by_cases hsame : r = r'
  · rw [hsame] at hstop
    exact Nat.lt_irrefl _ hstop
  · rcases rel_or_rel_of_pairwise (ranges_pairwise s) hr hr' hsame with h | h <;> omega

/-- Between ranges stands a line of both texts. -/
theorem shown_lt_shown (hr : r ∈ ranges s) (hr' : r' ∈ ranges s) (hlt : r.stop < r'.start) :
    ((hunkAt s r).shown.oldBefore + (hunkAt s r).shown.oldCount < (hunkAt s r').shown.oldBefore ∧
      (hunkAt s r).shown.newBefore + (hunkAt s r).shown.newCount
        < (hunkAt s r').shown.newBefore) := by
  obtain ⟨hstart, hle⟩ := lt_of_mem_ranges hr
  obtain ⟨hstart', hle'⟩ := lt_of_mem_ranges hr'
  have hkept : ∀ e ∈ s.extract r.stop (r.stop + 1), e.isKept = true := by
    refine isKept_of_mem_extract fun k hk hk' => ?_
    obtain rfl : k = r.stop := by omega
    exact not_isChange_stop hr
  have hsplit : s.take r'.start = s.take r.start ++ s.extract r.start r.stop
      ++ s.extract r.stop (r.stop + 1) ++ s.extract (r.stop + 1) r'.start := by
    rw [take_append_extract (Nat.le_of_lt hstart), take_append_extract (Nat.le_succ _),
      take_append_extract hlt]
  have hone := length_oldEntries hkept
  rw [length_extract (by omega), Nat.add_sub_cancel_left] at hone
  rw [oldBefore_shown, newBefore_shown, oldBefore_shown, newBefore_shown, hsplit]
  simp only [oldEntries_append, newEntries_append, List.length_append,
    newEntries_eq_oldEntries hkept, hone]
  have hold : (hunkAt s r).shown.oldCount = (oldEntries (s.extract r.start r.stop)).length := rfl
  have hnew : (hunkAt s r).shown.newCount = (newEntries (s.extract r.start r.stop)).length := rfl
  omega

/-- The hunks of a script show its changes. -/
theorem shows_hunks (s : List (Edit String)) : Shows s ((hunks s).map Hunk.shown) := by
  have hmem : ∀ {h : Shown}, h ∈ (hunks s).map Hunk.shown ↔
      ∃ r ∈ ranges s, (hunkAt s r).shown = h := by
    simp [hunks]
  refine ⟨?_, ?_, ?_, ?_⟩
  · intro h hh
    obtain ⟨r, hr, rfl⟩ := hmem.mp hh
    exact ⟨r.start, standsAt_shown hr⟩
  · rw [hunks, List.pairwise_map, List.pairwise_map]
    exact (ranges_pairwise s).imp_of_mem fun hr hr' hlt => shown_lt_shown hr hr' hlt
  · intro i j hi hj
    rw [← exists_has_iff_linked hi hj]
    constructor
    · rintro ⟨h, hh, hhi, hhj⟩
      obtain ⟨r, hr, rfl⟩ := hmem.mp hh
      exact ⟨r, hr, (has_shown_iff hr).mp hhi, (has_shown_iff hr).mp hhj⟩
    · rintro ⟨r, hr, hri, hrj⟩
      exact ⟨_, hmem.mpr ⟨r, hr, rfl⟩, (has_shown_iff hr).mpr hri, (has_shown_iff hr).mpr hrj⟩
  · intro h hh
    obtain ⟨r, hr, rfl⟩ := hmem.mp hh
    obtain ⟨first, last, ⟨hfirst, hfirstHas⟩, ⟨hlast, hlastHas⟩, hends, hbefore, hafter⟩ :=
      exists_ends_of_mem_ranges hr
    rw [Range.Has] at hfirstHas hlastHas
    rw [edits_shown, length_extract (lt_of_mem_ranges hr).2]
    refine ⟨first - r.start, last - r.start, ?_, ?_, ?_, by omega, by omega⟩
    · rw [isChange_extract_iff, Nat.add_sub_cancel' hfirstHas.1]
      exact ⟨hfirst, hfirstHas.2⟩
    · rw [isChange_extract_iff, Nat.add_sub_cancel' hlastHas.1]
      exact ⟨hlast, hlastHas.2⟩
    · intro k hk
      obtain ⟨hchange, hlt⟩ := isChange_extract_iff.mp hk
      have := hends _ hchange ⟨Nat.le_add_right _ _, hlt⟩
      omega

end Hunks

/-! ### Applying -/

/-- Applies hunks to the lines of a text that follow `passed` others.  A hunk is taken only where
its head says that it stands, and only if the lines that it keeps or removes are there. -/
def applyFrom (passed : Nat) : List Shown → List String → Option (List String)
  | [], lines => some lines
  | h :: hs, lines =>
    let gap := h.oldBefore - passed
    if passed ≤ h.oldBefore ∧ gap ≤ lines.length ∧ oldEntries h.edits <+: lines.drop gap then
      (applyFrom (h.oldBefore + h.oldCount) hs (lines.drop (gap + h.oldCount))).map fun rest =>
        lines.take gap ++ newEntries h.edits ++ rest
    else none

/-- A hunk that stands after lines that stay as they are is taken there. -/
theorem applyFrom_cons {passed : Nat} {h : Shown} {hs : List Shown} {gap rest rest' : List String}
    (hbefore : h.oldBefore = passed + gap.length)
    (hcount : h.oldCount = (oldEntries h.edits).length)
    (hrest : applyFrom (h.oldBefore + h.oldCount) hs rest = some rest') :
    applyFrom passed (h :: hs) (gap ++ (oldEntries h.edits ++ rest))
      = some (gap ++ (newEntries h.edits ++ rest')) := by
  have hgap : h.oldBefore - passed = gap.length := by omega
  rw [applyFrom]
  simp only [hgap]
  rw [if_pos, List.drop_append, List.drop_eq_nil_of_le (Nat.le_add_right _ _),
    Nat.add_sub_cancel_left, hcount, List.drop_left, List.nil_append, ← hcount, hrest,
    List.take_left, Option.map_some, List.append_assoc]
  refine ⟨by omega, by simp, ?_⟩
  rw [List.drop_left]
  exact List.prefix_append _ _

/-- From a place on, the hunks that follow lead from the old entries to the new ones. -/
theorem applyFrom_shown {s : List (Edit String)} {q : Nat} {rs : List Range}
    (hin : ∀ r ∈ rs, r.start < r.stop ∧ r.stop ≤ s.length)
    (hsep : rs.Pairwise fun r r' => r.stop < r'.start) (hq : ∀ r ∈ rs, q ≤ r.start)
    (hall : ∀ k, q ≤ k → IsChange s k → ∃ r ∈ rs, r.Has k) :
    applyFrom (oldEntries (s.take q)).length (rs.map fun r => (hunkAt s r).shown)
      (oldEntries (s.drop q)) = some (newEntries (s.drop q)) := by
  induction rs generalizing q with
  | nil =>
    have hkept := isKept_of_mem_drop fun k hk hchange => by
      obtain ⟨r, hr, -⟩ := hall k hk hchange
      cases hr
    rw [List.map_nil, applyFrom, newEntries_eq_oldEntries hkept]
  | cons r rs ih =>
    obtain ⟨hfar, hsep⟩ := List.pairwise_cons.mp hsep
    have hqr := hq r List.mem_cons_self
    obtain ⟨hlt, hle⟩ := hin r List.mem_cons_self
    -- a change before the range would be in a range, and all ranges start later
    have hkept : ∀ e ∈ s.extract q r.start, e.isKept = true := by
      refine isKept_of_mem_extract fun k hk hkr hchange => ?_
      obtain ⟨r', hr', hstart, -⟩ := hall k hk hchange
      rcases List.mem_cons.mp hr' with rfl | hr'
      · omega
      · have := hfar r' hr'
        omega
    have hsplit : s.drop q
        = s.extract q r.start ++ (s.extract r.start r.stop ++ s.drop r.stop) := by
      rw [extract_append_drop (Nat.le_of_lt hlt), extract_append_drop hqr]
    have hbefore : (hunkAt s r).shown.oldBefore
        = (oldEntries (s.take q)).length + (oldEntries (s.extract q r.start)).length := by
      rw [oldBefore_shown, ← take_append_extract hqr, oldEntries_append, List.length_append]
    have hpassed : (hunkAt s r).shown.oldBefore + (hunkAt s r).shown.oldCount
        = (oldEntries (s.take r.stop)).length := by
      rw [oldBefore_shown, ← take_append_extract (Nat.le_of_lt hlt), oldEntries_append,
        List.length_append]
      rfl
    have hrest := ih (q := r.stop) (fun r' hr' => hin r' (List.mem_cons_of_mem r hr')) hsep
      (fun r' hr' => Nat.le_of_lt (hfar r' hr')) fun k hk hchange => by
        obtain ⟨r', hr', hhas⟩ := hall k (by omega) hchange
        rcases List.mem_cons.mp hr' with rfl | hr'
        · exact absurd hhas.2 (Nat.not_lt_of_le hk)
        · exact ⟨r', hr', hhas⟩
    rw [hsplit, oldEntries_append, oldEntries_append, newEntries_append, newEntries_append,
      newEntries_eq_oldEntries hkept, List.map_cons]
    exact applyFrom_cons hbefore rfl (hpassed ▸ hrest)

/-- **A patch shows what changed, and applying it gives the new text.**  Read back, the patch of a
file is a list of hunks.  They show the changes of a script from the lines of the old text to those
of the new one, and they take the one list of lines to the other. -/
theorem patch_shows_and_applies (file : Path) (old new : String) :
    ∃ s hs, s = script (Text.entries old) (Text.entries new) ∧
      readPatch? file (patch file old new) = some hs ∧
      oldEntries s = Text.entries old ∧ newEntries s = Text.entries new ∧
      Shows s hs ∧ applyFrom 0 hs (Text.entries old) = some (Text.entries new) := by
  have hold := oldEntries_script (Text.entries old) (Text.entries new)
  have hnew := newEntries_script (Text.entries old) (Text.entries new)
  refine ⟨_, _, rfl, readPatch?_patch file old new, hold, hnew, shows_hunks _, ?_⟩
  have happly := applyFrom_shown (s := script (Text.entries old) (Text.entries new)) (q := 0)
    (fun r hr => lt_of_mem_ranges hr) (ranges_pairwise _) (fun r _ => Nat.zero_le r.start)
    fun k _ hk => exists_has_of_isChange hk
  rw [List.drop_zero, hold, hnew] at happly
  rw [between, hunks, List.map_map]
  exact happly

/-- Lines that are put in, with the lines around them. -/
example : patch ⟨"t.cs"⟩ "a\nb\nc\n" "a\nb\nx\ny\nc\n"
    = "--- a/t.cs\n+++ b/t.cs\n@@ -1,3 +1,5 @@\n a\n b\n+x\n+y\n c\n" := by cbv

end TreeLint.Diff
