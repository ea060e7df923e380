/-
TreeLint/Proofs/Diff/Reading.lean

Reading a patch.

`readPatch?` knows what a patch looks like and nothing about how one is made: a
line is told by its mark, a head by its numbers, and a hunk has the lines up to
the next head.  A patch is read back as the hunks that were written
(`readPatch?_patch`), since no line of a text holds a line feed
(`not_mem_of_mem_entries`).
-/
import TreeLint.Proofs.Diff.Script
import TreeLint.Proofs.FileTree
import TreeLint.Diff.Patch

namespace TreeLint.Text

/-- A piece ends at the first separator. -/
theorem splitAt_append_cons {separator : Char} {piece : List Char} (h : separator ∉ piece)
    (rest : List Char) :
    splitAt separator (piece ++ separator :: rest) = piece :: splitAt separator rest := by
  induction piece with
  | nil => rw [List.nil_append, splitAt, if_pos rfl]
  | cons c piece ih =>
    rw [List.mem_cons, not_or] at h
    rw [List.cons_append, splitAt, if_neg (Ne.symm h.1), ih h.2]

theorem mem_of_mem_dropReturn {line : List Char} {c : Char} (h : c ∈ dropReturn line) :
    c ∈ line := by
  rw [dropReturn] at h
  split at h
  · exact (List.dropLast_sublist line).subset h
  · exact h

theorem not_mem_of_mem_entriesOfPieces {pieces : List (List Char)} {line : String} {c : Char}
    (hpieces : ∀ piece ∈ pieces, c ∉ piece) (h : line ∈ entriesOfPieces pieces) :
    c ∉ line.toList := by
  fun_induction entriesOfPieces pieces with
  | case1 => cases h
  | case2 last hempty => cases h
  | case3 last hne =>
    rw [List.mem_singleton.mp h, String.toList_ofList]
    exact hpieces last List.mem_cons_self
  | case4 piece next pieces ih =>
    rcases List.mem_cons.mp h with rfl | h
    · rw [String.toList_ofList]
      exact fun hc => hpieces piece List.mem_cons_self (mem_of_mem_dropReturn hc)
    · exact ih (fun piece hpiece => hpieces piece (List.mem_cons_of_mem _ hpiece)) h

/-- No line of a text holds a line feed. -/
theorem not_mem_of_mem_entries {text line : String} (h : line ∈ entries text) :
    '\n' ∉ line.toList :=
  not_mem_of_mem_entriesOfPieces (fun _ => not_mem_of_mem_splitAt) h

end TreeLint.Text

namespace TreeLint.Diff

/-! ### Readers -/

/-- A hunk as it is shown: the numbers of its head, and its lines. -/
structure Shown where
  oldStart : Nat
  oldCount : Nat
  newStart : Nat
  newCount : Nat
  edits : List (Edit String)
  deriving DecidableEq, Repr

/-- What is shown of a hunk. -/
def Hunk.shown (h : Hunk) : Shown := ⟨h.oldStart, h.oldCount, h.newStart, h.newCount, h.edits⟩

/-- What follows a mark. -/
def after? (mark : String) (cs : List Char) : Option (List Char) := mark.toList.isPrefixOf? cs

/-- The number that a text starts with, and what follows. -/
def number? (cs : List Char) : Option (Nat × List Char) :=
  let digits := cs.takeWhile Char.isDigit
  if digits = [] then none
  else some (Nat.ofDigitChars 10 digits 0, cs.dropWhile Char.isDigit)

/-- The start and the count that a text starts with, and what follows. -/
def numbers? (cs : List Char) : Option ((Nat × Nat) × List Char) := do
  let (start, cs) ← number? cs
  let cs ← after? "," cs
  let (count, cs) ← number? cs
  return ((start, count), cs)

/-- The numbers of a head, for the old text and for the new one. -/
def head? (cs : List Char) : Option ((Nat × Nat) × (Nat × Nat)) := do
  let cs ← after? "@@ -" cs
  let (old, cs) ← numbers? cs
  let cs ← after? " +" cs
  let (new, cs) ← numbers? cs
  let cs ← after? " @@" cs
  if cs = [] then some (old, new) else none

/-- Puts a line in front of what follows it: the lines before the next head, and the hunks. -/
def readLine? (line : List Char) :
    List (Edit String) × List Shown → Option (List (Edit String) × List Shown)
  | (edits, hunks) =>
    match line with
    | ' ' :: cs => some (.keep (String.ofList cs) :: edits, hunks)
    | '-' :: cs => some (.remove (String.ofList cs) :: edits, hunks)
    | '+' :: cs => some (.add (String.ofList cs) :: edits, hunks)
    | line => (head? line).map fun (old, new) => ([], ⟨old.1, old.2, new.1, new.2, edits⟩ :: hunks)

/-- Reads the lines of a patch from the last one on. -/
def readLines? : List (List Char) → Option (List (Edit String) × List Shown)
  | [] => some ([], [])
  | line :: lines => readLines? lines >>= readLine? line

/-- The lines of a text all of whose lines are ended. -/
def endedLines? (cs : List Char) : Option (List (List Char)) :=
  let pieces := Text.splitAt '\n' cs
  if pieces.getLast? = some [] then some pieces.dropLast else none

/-- The hunks of a patch of a file. -/
def readPatch? (file : Path) (text : String) : Option (List Shown) := do
  let cs ← after? ("--- a/" ++ file.text ++ "\n+++ b/" ++ file.text ++ "\n") text.toList
  let lines ← endedLines? cs
  let (edits, hunks) ← readLines? lines
  if edits = [] then some hunks else none

/-! ### Heads -/

@[simp] theorem after?_append (mark : String) (cs : List Char) :
    after? mark (mark.toList ++ cs) = some cs :=
  List.isPrefixOf?_eq_some_iff_append_eq.mpr rfl

theorem isDigit_of_mem_toString {n : Nat} {c : Char} (h : c ∈ (toString n).toList) :
    c.isDigit = true := by
  rw [Nat.toString_eq_ofList_toDigits, String.toList_ofList] at h
  exact Nat.isDigit_of_mem_toDigits (by decide) (by decide) h

theorem number?_toString (n : Nat) {rest : List Char} (h : ∀ c ∈ rest.head?, c.isDigit = false) :
    number? ((toString n).toList ++ rest) = some (n, rest) := by
  have hdigits := fun c (hc : c ∈ (toString n).toList) => isDigit_of_mem_toString hc
  have htake : ((toString n).toList ++ rest).takeWhile Char.isDigit = (toString n).toList := by
    rw [List.takeWhile_append_of_pos hdigits]
    cases rest with
    | nil => simp
    | cons c rest => simp [h c rfl]
  have hdrop : ((toString n).toList ++ rest).dropWhile Char.isDigit = rest := by
    rw [List.dropWhile_append_of_pos hdigits]
    cases rest with
    | nil => rfl
    | cons c rest => simp [h c rfl]
  rw [number?, htake, hdrop, Nat.toString_eq_ofList_toDigits, String.toList_ofList]
  rw [if_neg Nat.toDigits_ne_nil, Nat.ofDigitChars_ten_toDigits]

theorem numbers?_toString (start count : Nat) {rest : List Char}
    (h : ∀ c ∈ rest.head?, c.isDigit = false) :
    numbers? ((toString start ++ "," ++ toString count).toList ++ rest)
      = some ((start, count), rest) := by
  rw [numbers?, String.toList_append, String.toList_append, List.append_assoc, List.append_assoc,
    number?_toString start (by simp)]
  simp only [Option.bind_eq_bind, Option.bind_some, after?_append]
  rw [number?_toString count h]
  rfl

theorem Hunk.toList_head (h : Hunk) : h.head.toList = "@@ -".toList
    ++ ((toString h.oldStart ++ "," ++ toString h.oldCount).toList ++ (" +".toList
    ++ ((toString h.newStart ++ "," ++ toString h.newCount).toList ++ " @@".toList))) := by
  delta Hunk.head
  simp only [String.toList_append, List.append_assoc]

/-- The numbers of a head are read back. -/
theorem head?_head (h : Hunk) :
    head? h.head.toList = some ((h.oldStart, h.oldCount), (h.newStart, h.newCount)) := by
  have hend : after? " @@" " @@".toList = some [] := by decide
  rw [h.toList_head, head?, after?_append]
  simp only [Option.bind_eq_bind, Option.bind_some]
  rw [numbers?_toString _ _ (by simp)]
  simp only [Option.bind_some, after?_append]
  rw [numbers?_toString _ _ (by simp)]
  simp only [Option.bind_some, hend, if_true]

/-- A head is not taken for a line. -/
theorem readLine?_head (h : Hunk) (edits : List (Edit String)) (hunks : List Shown) :
    readLine? h.head.toList (edits, hunks)
      = some ([], ⟨h.oldStart, h.oldCount, h.newStart, h.newCount, edits⟩ :: hunks) := by
  have hmark : "@@ -".toList = ['@', '@', ' ', '-'] := by decide
  have hread := head?_head h
  rw [h.toList_head, hmark, List.cons_append] at hread ⊢
  rw [readLine?, hread]
  · rfl
  all_goals
    intro cs heq
    cases heq

/-! ### Lines -/

theorem readLine?_line (e : Edit String) (edits : List (Edit String)) (hunks : List Shown) :
    readLine? (Hunk.line e).toList (edits, hunks) = some (e :: edits, hunks) := by
  cases e with
  | keep l | remove l | add l =>
    simp [Hunk.line, readLine?]

theorem readLines?_map_line (edits : List (Edit String)) {lines : List (List Char)}
    {edits' : List (Edit String)} {hunks : List Shown}
    (h : readLines? lines = some (edits', hunks)) :
    readLines? (edits.map (fun e => (Hunk.line e).toList) ++ lines)
      = some (edits ++ edits', hunks) := by
  induction edits with
  | nil => exact h
  | cons e edits ih =>
    rw [List.map_cons, List.cons_append, readLines?, ih, Option.bind_eq_bind, Option.bind_some,
      readLine?_line, List.cons_append]

/-- The lines of a hunk. -/
def Hunk.lines (h : Hunk) : List (List Char) :=
  h.head.toList :: h.edits.map fun e => (line e).toList

/-- Hunks are read back from their lines. -/
theorem readLines?_flatMap_lines (hs : List Hunk) :
    readLines? (hs.flatMap Hunk.lines) = some ([], hs.map Hunk.shown) := by
  induction hs with
  | nil => rfl
  | cons h hs ih =>
    rw [List.flatMap_cons, Hunk.lines, List.cons_append, readLines?,
      readLines?_map_line h.edits ih, List.append_nil, Option.bind_eq_bind, Option.bind_some,
      readLine?_head, List.map_cons, Hunk.shown]

theorem endedLines?_flatMap {lines : List (List Char)} (h : ∀ line ∈ lines, '\n' ∉ line) :
    endedLines? (lines.flatMap (· ++ ['\n'])) = some lines := by
  have hsplit : Text.splitAt '\n' (lines.flatMap (· ++ ['\n'])) = lines ++ [[]] := by
    induction lines with
    | nil => rfl
    | cons line lines ih =>
      rw [List.flatMap_cons, List.append_assoc, List.singleton_append,
        Text.splitAt_append_cons (h line List.mem_cons_self),
        ih fun line hline => h line (List.mem_cons_of_mem _ hline), List.cons_append]
  rw [endedLines?, hsplit, List.getLast?_concat, List.dropLast_concat]
  rfl

theorem Hunk.toList_render (h : Hunk) : h.render.toList = h.lines.flatMap (· ++ ['\n']) := by
  simp [Hunk.render, Hunk.lines, String.toList_join, List.flatMap_map]

theorem not_mem_of_mem_lines {h : Hunk} (hedits : ∀ e ∈ h.edits, '\n' ∉ (Hunk.line e).toList) :
    ∀ line ∈ h.lines, '\n' ∉ line := by
  have hnumber : ∀ n : Nat, '\n' ∉ (toString n).toList := fun n hn => by
    cases isDigit_of_mem_toString hn
  intro line hline
  rw [Hunk.lines, List.mem_cons] at hline
  rcases hline with hline | hline
  · rw [hline]
    simp only [h.toList_head, String.toList_append, List.mem_append, hnumber, or_false]
    decide
  · obtain ⟨e, he, rfl⟩ := List.mem_map.mp hline
    exact hedits e he

/-! ### Patches -/

/-- Entries of a script come from one of the two texts. -/
theorem not_mem_of_mem_script {old new : String} {e : Edit String}
    (h : e ∈ script (Text.entries old) (Text.entries new)) : '\n' ∉ (Hunk.line e).toList := by
  have hold : ∀ l, e.old? = some l → l ∈ Text.entries old := fun l hl => by
    rw [← oldEntries_script (Text.entries old) (Text.entries new)]
    exact List.mem_filterMap.mpr ⟨e, h, hl⟩
  have hnew : ∀ l, e.new? = some l → l ∈ Text.entries new := fun l hl => by
    rw [← newEntries_script (Text.entries old) (Text.entries new)]
    exact List.mem_filterMap.mpr ⟨e, h, hl⟩
  cases e with
  | keep l | remove l => simpa [Hunk.line] using Text.not_mem_of_mem_entries (hold l rfl)
  | add l => simpa [Hunk.line] using Text.not_mem_of_mem_entries (hnew l rfl)

theorem mem_script_of_mem_between {old new : String} {h : Hunk} (hh : h ∈ between old new)
    {e : Edit String} (he : e ∈ h.edits) : e ∈ script (Text.entries old) (Text.entries new) := by
  obtain ⟨r, -, rfl⟩ := List.mem_map.mp hh
  exact List.mem_of_mem_drop (List.mem_of_mem_take he)

/-- A patch is read back as the hunks that it was made of. -/
theorem readPatch?_patch (file : Path) (old new : String) :
    readPatch? file (patch file old new) = some ((between old new).map Hunk.shown) := by
  have hlines : ∀ line ∈ (between old new).flatMap Hunk.lines, '\n' ∉ line := by
    intro line hline
    obtain ⟨h, hh, hline⟩ := List.mem_flatMap.mp hline
    exact not_mem_of_mem_lines (fun e he => not_mem_of_mem_script (mem_script_of_mem_between hh he))
      line hline
  have hbody : (String.join ((between old new).map Hunk.render)).toList
      = ((between old new).flatMap Hunk.lines).flatMap (· ++ ['\n']) := by
    rw [String.toList_join, List.flatMap_map, List.flatMap_assoc]
    simp only [Hunk.toList_render]
  rw [readPatch?, patch, String.toList_append, after?_append, hbody]
  simp only [Option.bind_eq_bind, Option.bind_some]
  rw [endedLines?_flatMap hlines, Option.bind_some, readLines?_flatMap_lines]
  rfl

end TreeLint.Diff
