/-
TreeLint/Proofs/Format/Carets.lean

Where the carets of a text report stand.

The padding is right for every text: it counts the characters in front of the
flagged ones on their line, as the column does.  So is the end of the line: no
caret stands past the last character shown there.

The number of carets is right where bytes are characters, or where the flagged
text goes on to the end of its line.  Otherwise there are too many, since flagged
bytes are counted and a character may have several
(`caretCount_eq_max_length_marked_iff`).
-/
import TreeLint.Analyzers.EqualsHashCode
import TreeLint.Format.Text
import TreeLint.Proofs.Text.LineIndex

namespace TreeLint

open Text (feeds lastLine)

/-! ### Characters and bytes -/

/-- A text has at least as many bytes as characters. -/
theorem Text.length_le_utf8Len (cs : List Char) : cs.length ≤ String.utf8Len cs := by
  induction cs with
  | nil => exact Nat.le_refl 0
  | cons c cs ih =>
    rw [List.length_cons, String.utf8Len_cons]
    exact Nat.add_le_add ih c.utf8Size_pos

theorem Text.length_le_utf8ByteSize (s : String) : s.length ≤ s.utf8ByteSize := by
  rw [← String.length_toList, ← String.utf8Len_toList]
  exact length_le_utf8Len _

theorem Text.length_eq_utf8Len_iff (cs : List Char) :
    cs.length = String.utf8Len cs ↔ ∀ c ∈ cs, c.utf8Size = 1 := by
  induction cs with
  | nil => simp
  | cons c cs ih =>
    have hle := length_le_utf8Len cs
    have hpos := c.utf8Size_pos
    rw [List.length_cons, String.utf8Len_cons, List.forall_mem_cons, ← ih]
    omega

/-! ### What is marked -/

namespace TextFormat

/-- What is shown of a text up to the end of its first line: neither the line feed nor any carriage
returns before it. -/
def firstLine (text : String) : List Char :=
  (text.toList.takeWhile (· != '\n')).rdropWhile (· == '\r')

/-- The characters of `piece` that are shown on its first line, if `after` stands behind it. -/
def marked (piece after : String) : List Char :=
  piece.toList.take (firstLine (piece ++ after)).length

variable {before piece after : String}

theorem length_marked :
    (marked piece after).length = min (firstLine (piece ++ after)).length piece.length := by
  rw [marked, List.length_take, String.length_toList]

/-- Of a line, what is left behind its first characters is shown or cut off by itself. -/
theorem length_rdropWhile_append_sub (p : Char → Bool) (xs ys : List Char) :
    ((xs ++ ys).rdropWhile p).length - xs.length = (ys.rdropWhile p).length := by
  rw [List.rdropWhile, List.rdropWhile, List.reverse_append, List.dropWhile_append]
  split
  · rename_i hnone
    rw [List.isEmpty_iff.mp hnone]
    have hle := (List.dropWhile_suffix p (l := xs.reverse)).length_le
    simp only [List.length_reverse, List.reverse_nil, List.length_nil] at hle ⊢
    omega
  · simp

/-- A line with its number, and under it carets behind blanks. -/
def underlined (number : Nat) (line : String) (blanks carets : Nat) : String :=
  Text.padLeft 4 (toString number) ++ " | " ++ line ++ "\n"
    ++ ("     | " ++ Text.times blanks " " ++ Text.times carets "^" ++ "\n")

theorem source_eq_underlined {f : TextFormat} (hcolored : f.colored = false) {d : Diagnostic}
    {line : String} (hline : d.sourceLine = some line) (hcolumn : d.location.column ≠ 0) :
    f.source d = underlined d.location.line line (d.location.column - 1) (caretCount line d) := by
  have hpaint (s : Style) (text : String) : s.paint f.colored text = text := by
    rw [hcolored]
    rfl
  have hgutter : " " ++ "|" ++ " " = " | " := by decide
  have hmargin : "     " ++ "|" ++ " " = "     | " := by decide
  rw [source, hline]
  show _ ++ f.caretLine line d = _
  rw [caretLine, if_neg hcolumn, gutter, hpaint, hpaint, hpaint, hmargin, underlined, ← hgutter]
  simp only [String.append_assoc]

/-- There are as many carets as flagged bytes, unless the line ends before. -/
theorem caretCount_eq {d : Diagnostic} {line : String}
    (hspan : d.span.length = piece.utf8ByteSize)
    (hcolumn : d.location.column = (lastLine before).length + 1)
    (hline : line = String.ofList (((lastLine before).toList
      ++ (piece ++ after).toList.takeWhile (· != '\n')).rdropWhile (· == '\r'))) :
    caretCount line d = max 1 (min piece.utf8ByteSize (firstLine (piece ++ after)).length) := by
  have hroom : line.length - (d.location.column - 1) = (firstLine (piece ++ after)).length := by
    rw [hline, String.length_ofList, hcolumn, Nat.add_sub_cancel, ← String.length_toList,
      length_rdropWhile_append_sub, firstLine]
  rw [caretCount, hspan, hroom]

/-- The carets are as many as the flagged characters exactly where bytes are characters, or where
nothing of the line is left behind the flagged text. -/
theorem caretCount_eq_max_length_marked_iff (hpiece : piece ≠ "") :
    max 1 (min piece.utf8ByteSize (firstLine (piece ++ after)).length)
        = max 1 (marked piece after).length ↔
      (∀ c ∈ piece.toList, c.utf8Size = 1) ∨
        (firstLine (piece ++ after)).length ≤ piece.length := by
  have hpos : 0 < piece.length :=
    Nat.pos_of_ne_zero fun h => hpiece (String.length_eq_zero_iff.mp h)
  have hle := Text.length_le_utf8ByteSize piece
  rw [length_marked, ← Text.length_eq_utf8Len_iff, String.utf8Len_toList, String.length_toList]
  omega

end TextFormat

namespace AnalysisUnit

variable {before piece after : String}

/-- The bytes of `piece`, if `before` stands in front of it. -/
def spanOf (before piece : String) : Span :=
  ⟨before.utf8ByteSize, before.utf8ByteSize + piece.utf8ByteSize⟩

theorem length_spanOf : (spanOf before piece).length = piece.utf8ByteSize :=
  Nat.add_sub_cancel_left ..

variable {u : AnalysisUnit} (rule : Rule) (payload : Payload) (args : List String)

/-- A diagnostic is in the line and the column of the first flagged character. -/
theorem location_diagnostic (htext : u.tree.text = before ++ (piece ++ after)) :
    (u.diagnostic rule (spanOf before piece) payload args).location
      = ⟨u.path, spanOf before piece, feeds before + 1, (lastLine before).length + 1⟩ := by
  have hposition : Text.position u.tree.text (spanOf before piece).start
      = ⟨feeds before + 1, (lastLine before).length + 1⟩ := by
    rw [htext]
    exact Text.position_append before (piece ++ after)
  rw [diagnostic]
  show Location.mk _ _ _ _ = _
  rw [hposition]

theorem sourceLine_diagnostic (htext : u.tree.text = before ++ (piece ++ after)) :
    (u.diagnostic rule (spanOf before piece) payload args).sourceLine
      = Text.lineText? u.tree.text (feeds before + 1) := by
  have hlocation := location_diagnostic rule payload args htext
  show Text.lineText? u.tree.text (u.diagnostic rule _ payload args).location.line = _
  rw [hlocation]

/-- **What the carets mark.**  They start under the first flagged character.  They are at least as
many as the flagged characters on its line and do not go past the end of the line, and they are
exactly as many where each flagged character is one byte or nothing is left of the line. -/
theorem carets_diagnostic {f : TextFormat} (htext : u.tree.text = before ++ (piece ++ after))
    (hpiece : piece ≠ "") (hcolored : f.colored = false) (hsource : f.showSource = true) :
    let d := u.diagnostic rule (spanOf before piece) payload args
    ∃ line carets, Text.lineText? u.tree.text d.location.line = some line ∧
      f.diagnostic d
        = f.headline d
          ++ TextFormat.underlined d.location.line line (d.location.column - 1) carets
          ++ (if f.showHelp then f.help d else "") ∧
      d.location.line = feeds before + 1 ∧ d.location.column - 1 = (lastLine before).length ∧
      max 1 (TextFormat.marked piece after).length ≤ carets ∧
      carets ≤ max 1 (TextFormat.firstLine (piece ++ after)).length ∧
      (carets = max 1 (TextFormat.marked piece after).length ↔
        (∀ c ∈ piece.toList, c.utf8Size = 1) ∨
          (TextFormat.firstLine (piece ++ after)).length ≤ piece.length) := by
  intro d
  have hlocation : d.location = ⟨u.path, spanOf before piece, feeds before + 1,
      (lastLine before).length + 1⟩ := location_diagnostic rule payload args htext
  have hcolumn : d.location.column = (lastLine before).length + 1 := by rw [hlocation]
  obtain ⟨line, hdef⟩ : ∃ line, line = String.ofList (((lastLine before).toList
      ++ (piece ++ after).toList.takeWhile (· != '\n')).rdropWhile (· == '\r')) := ⟨_, rfl⟩
  have hline := Text.lineText?_append before (piece ++ after)
  rw [← htext, ← hdef] at hline
  have hsourceLine : d.sourceLine = some line :=
    (sourceLine_diagnostic rule payload args htext).trans hline
  have hspan : d.span.length = piece.utf8ByteSize := by
    rw [Diagnostic.span, hlocation, length_spanOf]
  have hcarets := TextFormat.caretCount_eq hspan hcolumn hdef
  refine ⟨line, _, ?_, ?_, ?_, ?_, ?_, ?_,
    TextFormat.caretCount_eq_max_length_marked_iff hpiece⟩
  · rw [hlocation]
    exact hline
  · rw [TextFormat.diagnostic, if_pos hsource, TextFormat.source_eq_underlined hcolored hsourceLine
      (by rw [hcolumn]; exact Nat.succ_ne_zero _), hcarets]
  · rw [hlocation]
  · rw [hcolumn, Nat.add_sub_cancel]
  · have hle := Text.length_le_utf8ByteSize piece
    rw [TextFormat.length_marked]
    omega
  · omega

/-- A class with a name that has more bytes than characters. -/
def accentedClass : AnalysisUnit where
  source :=
    { path := ⟨"a.cs"⟩
      tree := ⟨#[⟨.classDeclaration, [1, 2, 3, 4], none⟩, ⟨.classKeyword, [], some ⟨"class", ""⟩⟩,
          ⟨.identifierToken, [], some ⟨"Été", " "⟩⟩, ⟨.openBraceToken, [], some ⟨"\x7b", " "⟩⟩,
          ⟨.closeBraceToken, [], some ⟨"\x7d", ""⟩⟩],
        0, #[none, some 0, some 0, some 0, some 0], _, rfl, rfl⟩ }
  symbols := .empty
  generated := false

/-- Of the keyword, every character is one byte. -/
theorem carets_diagnostic_accentedClass :
    let d := accentedClass.diagnostic EqualsHashCode.rule (spanOf "" "class") .nothing []
    ({ colored := false } : TextFormat).diagnostic d
      = ({ colored := false } : TextFormat).headline d
        ++ "   1 | class Été \x7b\x7d\n     | ^^^^^\n" := by
  intro d
  have htext : accentedClass.tree.text = "" ++ ("class" ++ " Été \x7b\x7d") := by decide
  obtain ⟨line, carets, hline, hdiagnostic, hnumber, hcolumn, -, -, hcarets⟩ :=
    carets_diagnostic EqualsHashCode.rule .nothing [] (f := { colored := false }) htext
      (by decide) rfl rfl
  have hbytes : ∀ c ∈ "class".toList, c.utf8Size = 1 :=
    (Text.length_eq_utf8Len_iff _).mp (by decide)
  have hfive : carets = 5 := (hcarets.mpr (.inl hbytes)).trans (by decide)
  have hshown : Text.lineText? accentedClass.tree.text 1 = some "class Été \x7b\x7d" := by
    decide +kernel
  have hfirst : feeds "" + 1 = 1 := rfl
  rw [hnumber, hfirst, hshown] at hline
  obtain rfl := Option.some.inj hline
  rw [hdiagnostic, hnumber, hcolumn, hfive, if_neg Bool.false_ne_true, String.append_empty]
  congr 1

/-- Of the name, three characters are flagged, and five carets stand under them. -/
theorem not_carets_eq_length_marked :
    ¬ ∀ (f : TextFormat) (u : AnalysisUnit) (rule : Rule) (payload : Payload) (args : List String)
      (before piece after : String), u.tree.text = before ++ (piece ++ after) → piece ≠ "" →
      f.colored = false → f.showSource = true →
      let d := u.diagnostic rule (spanOf before piece) payload args
      ∃ line, Text.lineText? u.tree.text d.location.line = some line ∧
        f.diagnostic d
          = f.headline d
            ++ TextFormat.underlined d.location.line line (d.location.column - 1)
              (max 1 (TextFormat.marked piece after).length)
            ++ (if f.showHelp then f.help d else "") := by
  intro h
  obtain ⟨line, hline, hdiagnostic⟩ := h { colored := false } accentedClass EqualsHashCode.rule
    .nothing [] "class " "Été" " \x7b\x7d" (by decide) (by decide) rfl rfl
  let d := accentedClass.diagnostic EqualsHashCode.rule (spanOf "class " "Été") .nothing []
  have hshown : Text.lineText? accentedClass.tree.text d.location.line
      = some "class Été \x7b\x7d" := by decide +kernel
  obtain rfl := Option.some.inj (hline.symm.trans hshown)
  have hsource : ({ colored := false } : TextFormat).source d
      = "   1 | class Été \x7b\x7d\n     |       ^^^^^\n" := by decide +kernel
  have hclaimed : TextFormat.underlined d.location.line "class Été \x7b\x7d"
      (d.location.column - 1) (max 1 (TextFormat.marked "Été" " \x7b\x7d").length)
        = "   1 | class Été \x7b\x7d\n     |       ^^^\n" := by decide +kernel
  rw [TextFormat.diagnostic, if_pos rfl, hsource, hclaimed] at hdiagnostic
  -- the headlines are the same, and what stands below them is of different lengths
  have hlength := congrArg String.length hdiagnostic
  simp only [String.length_append] at hlength
  have hne : "   1 | class Été \x7b\x7d\n     |       ^^^^^\n".length
      = "   1 | class Été \x7b\x7d\n     |       ^^^\n".length + 2 := by decide
  omega

end AnalysisUnit

end TreeLint
