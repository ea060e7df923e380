/-
TreeLint/Proofs/Fix/AddedCases.lean

What the fix of a switch adds to the text.

An edit that exchanges neighbouring children of a node leaves the text before and
behind them as it is (`Tree.Splice.exists_text_eq`).  So whenever the fix works,
it adds one piece, the text of the new sections, and nothing else.

Apart from white space, this piece is what the sections say, and before each of
its two parts the indentation is said again, which is the text in front of the
first section of the switch and of its first statement.  Where comments stand
there, they are repeated for every member.
-/
import TreeLint.Proofs.Fix.MissingCases

namespace TreeLint

open Element

/-! ### The text around an edit -/

namespace Element

variable {x x' e f : Element} {old new : List Element}

/-- What lies around the place of an edit has the same text before and behind it. -/
theorem Around.exists_fullText_eq (h : Around x x' e f) :
    ∃ before after, e.fullText = before ++ (x.fullText ++ after) ∧
      f.fullText = before ++ (x'.fullText ++ after) := by
  induction h with
  | here => exact ⟨"", "", by simp, by simp⟩
  | @child e f c d pre post pre' post' _ he hf hpre hpost _ ih =>
    obtain ⟨before, after, hc, hd⟩ := ih
    have hetext := fullText_eq_fullTextAll_children
      (isToken_of_mem_children (he ▸ List.mem_append_right pre List.mem_cons_self))
    have hftext := fullText_eq_fullTextAll_children
      (isToken_of_mem_children (hf ▸ List.mem_append_right pre' List.mem_cons_self))
    refine ⟨fullTextAll pre ++ before, after ++ fullTextAll post, ?_, ?_⟩
    · rw [hetext, he, fullTextAll_append, fullTextAll, hc]
      simp only [String.append_assoc]
    · rw [hftext, hf, fullTextAll_append, fullTextAll, hd, fullTextAll_eq_of_shapes hpre,
        fullTextAll_eq_of_shapes hpost]
      simp only [String.append_assoc]

/-- Beside the children that are exchanged, the text of a node stays. -/
theorem Spliced.exists_fullText_eq (h : Spliced old new x x') :
    ∃ before after, x.fullText = before ++ (fullTextAll old ++ after) ∧
      x'.fullText = before ++ (fullTextAll new ++ after) := by
  obtain ⟨pre, post, pre', post', hx, hx', hpre, hpost⟩ := h.exists_split
  refine ⟨fullTextAll pre, fullTextAll post, ?_, ?_⟩
  · rw [fullText_eq_fullTextAll_children h.isToken_eq.1, hx, fullTextAll_append, fullTextAll_append]
  · rw [fullText_eq_fullTextAll_children h.isToken_eq.2, hx', fullTextAll_append,
      fullTextAll_append, fullTextAll_eq_of_shapes hpre, fullTextAll_eq_of_shapes hpost]

end Element

/-- The text of the old children gives way to the text of the new ones. -/
theorem Tree.Splice.exists_text_eq {old new : List Element} {x x' : Element} {t t' : Tree}
    (h : Tree.Splice old new x x' t t') :
    ∃ before after, t.text = before ++ (fullTextAll old ++ after) ∧
      t'.text = before ++ (fullTextAll new ++ after) := by
  obtain ⟨before, after, htop, htop'⟩ := h.around.exists_fullText_eq
  obtain ⟨before', after', hx, hx'⟩ := h.spliced.exists_fullText_eq
  refine ⟨before ++ before', after' ++ after, ?_, ?_⟩
  · rw [Tree.text, htop, hx]
    simp only [String.append_assoc]
  · rw [Tree.text, htop', hx']
    simp only [String.append_assoc]

/-! ### White space -/

namespace Text

/-- The characters of Unicode's white space. -/
def isWhite (c : Char) : Bool :=
  let code := c.toNat
  (0x9 ≤ code && code ≤ 0xD) || code == 0x20 || code == 0x85 || code == 0xA0 || code == 0x1680
    || (0x2000 ≤ code && code ≤ 0x200A) || code == 0x2028 || code == 0x2029 || code == 0x202F
    || code == 0x205F || code == 0x3000

/-- Whether a text is white space. -/
def allWhite (text : String) : Bool := text.toList.all isWhite

/-- The characters of a text without white space. -/
def bare (text : String) : List Char := text.toList.filter (!isWhite ·)

theorem bare_append (s t : String) : bare (s ++ t) = bare s ++ bare t := by
  rw [bare, String.toList_append, List.filter_append, bare, bare]

theorem bare_join (texts : List String) : bare (String.join texts) = texts.flatMap bare := by
  induction texts with
  | nil => rfl
  | cons s texts ih => rw [MissingCasesFix.join_cons, bare_append, ih, List.flatMap_cons]

theorem bare_eq_nil_iff {text : String} : bare text = [] ↔ allWhite text = true := by
  rw [bare, List.filter_eq_nil_iff, allWhite, List.all_eq_true]
  simp

theorem allWhite_append {s t : String} (hs : allWhite s = true) (ht : allWhite t = true) :
    allWhite (s ++ t) = true := by
  rw [allWhite, String.toList_append, List.all_append, Bool.and_eq_true]
  exact ⟨hs, ht⟩

end Text

/-! ### The new sections -/

namespace MissingCasesFix

open Text (bare)

/-- A section for a member, without white space. -/
def bareCase (enumName member : String) : List Char :=
  bare "case" ++ bare enumName ++ bare "." ++ bare member ++ bare ":"
    ++ bare "thrownewNotImplementedException();"

/-- A section for a member with the indentations before its label and before its body, without
white space. -/
def bareSection (indents : Indents) (enumName member : String) : List Char :=
  bare indents.ofSection
    ++ (bare "case" ++ bare enumName ++ bare "." ++ bare member ++ bare ":")
    ++ bare indents.ofStatement ++ bare "thrownewNotImplementedException();"

theorem bare_sectionsText (indents : Indents) (enumName : String) (members : List String) :
    bare (sectionsText indents enumName members)
      = members.flatMap (bareSection indents enumName) := by
  have hcase : bare "case " = bare "case" := by decide
  have hthrow : bare "throw new NotImplementedException();"
      = bare "thrownewNotImplementedException();" := by decide
  rw [sectionsText, Text.bare_join, List.flatMap_map]
  refine List.flatMap_congr fun member _ => ?_
  simp only [Text.bare_append, hcase, hthrow, List.append_assoc, bareSection]

/-- Every section is longer than its case by what the indentations are without white space. -/
theorem length_flatMap_bareSection (indents : Indents) (enumName : String) (members : List String) :
    (members.flatMap (bareSection indents enumName)).length
      = (members.flatMap (bareCase enumName)).length
        + members.length
          * ((bare indents.ofSection).length + (bare indents.ofStatement).length) := by
  induction members with
  | nil => simp
  | cons m ms ih =>
    rw [List.flatMap_cons, List.length_append, ih, List.flatMap_cons, List.length_append,
      List.length_cons, Nat.succ_mul, bareCase, bareSection]
    simp only [List.length_append]
    omega

/-- The sections say the cases alone exactly if the indentations are white space. -/
theorem bare_sectionsText_eq_iff {indents : Indents} {enumName : String} {members : List String}
    (hmembers : members ≠ []) :
    bare (sectionsText indents enumName members) = members.flatMap (bareCase enumName) ↔
      Text.allWhite indents.ofSection = true ∧ Text.allWhite indents.ofStatement = true := by
  rw [← Text.bare_eq_nil_iff, ← Text.bare_eq_nil_iff, bare_sectionsText]
  constructor
  · intro h
    have hextra := (length_flatMap_bareSection indents enumName members).symm.trans
      (congrArg List.length h)
    have hpos : 0 < members.length := List.length_pos_iff.mpr hmembers
    have hzero : (bare indents.ofSection).length + (bare indents.ofStatement).length = 0 :=
      (Nat.mul_eq_zero.mp (Nat.add_eq_left.mp hextra)).resolve_left (Nat.ne_of_gt hpos)
    rw [← List.length_eq_zero_iff, ← List.length_eq_zero_iff]
    omega
  · rintro ⟨hsection, hstatement⟩
    refine List.flatMap_congr fun member _ => ?_
    rw [bareSection, hsection, hstatement, List.nil_append, List.append_nil, bareCase]

variable {t t' : Tree} {d : Diagnostic} {x : Element}

/-- Where nothing but white space stands in front of tokens, the indentations are white space. -/
theorem allWhite_indents (h : ∀ y, Below x y → Text.allWhite y.leadingTrivia = true) :
    Text.allWhite (indents x).ofSection = true ∧ Text.allWhite (indents x).ofStatement = true := by
  have hstep : Text.allWhite indentStep = true := rfl
  rw [indents]
  split
  · rename_i first rest hsections
    have hfirst : first ∈ sections x := hsections ▸ List.mem_cons_self
    have hbelow : Below x first :=
      .of_child (mem_children_of_mem_childNodes (List.mem_filter.mp hfirst).1)
    refine ⟨h first hbelow, ?_⟩
    show Text.allWhite (((first.childNodes.find? (!isLabel ·.kind)).map leadingTrivia).getD _)
      = true
    rcases hstatement : first.childNodes.find? (!isLabel ·.kind) with - | statement
    · rw [hstatement]
      exact Text.allWhite_append (h first hbelow) hstep
    · rw [hstatement]
      exact h statement (hbelow.trans (.of_child
        (mem_children_of_mem_childNodes (List.mem_of_find?_eq_some hstatement))))
  · have hclosing : Text.allWhite
        (((x.childOfKind? .closeBraceToken).map leadingTrivia).getD "\n") = true := by
      rcases hbrace : x.childOfKind? .closeBraceToken with - | brace
      · rfl
      · exact h brace (.of_child (List.mem_of_find?_eq_some hbrace))
    have houter := Text.allWhite_append hclosing hstep
    exact ⟨houter, Text.allWhite_append houter hstep⟩

/-! ### The fix -/

/-- The switch that the fix finds is in the tree, and branches on what is flagged. -/
theorem of_switchOn?_eq_some {n : Element} (hfound : t.nodeAt? d.span = some n)
    (hswitch : switchOn? t n d.span = some x) :
    Below t.top x ∧ ∃ g, x.switchExpression? = some g ∧ g.span = d.span := by
  have hn : Below t.top n := (Tree.of_nodeAt?_eq_some hfound).1
  have hmem : x ∈ n :: t.ancestors n.id := List.mem_of_find?_eq_some hswitch
  have hx : Below t.top x := by
    rcases List.mem_cons.mp hmem with rfl | hmem
    · exact hn
    · obtain ⟨above, hlineage⟩ := hn.exists_lineage
      rw [Tree.ancestors_eq hn hlineage] at hmem
      exact hlineage.below_of_mem hmem
  have hsome := List.find?_some hswitch
  rw [Bool.and_eq_true, beq_iff_eq, Option.any_eq_true] at hsome
  obtain ⟨-, g, hg, hspan⟩ := hsome
  exact ⟨hx, g, hg, beq_iff_eq.mp hspan⟩

/-- Where the fix works there is a switch to be fixed, and members are missing. -/
theorem exists_of_fix_eq_ok (h : provider.fix t d = .ok t') :
    ∃ enumName members n x, d.payload = .missingEnumCases enumName members ∧ members ≠ [] ∧
      t.nodeAt? d.span = some n ∧ switchOn? t n d.span = some x ∧ correct t d = .ok t' := by
  have hcorrect : correct t d = .ok t' := by
    rw [FixProvider.fix] at h
    split at h
    · exact h
    · cases h
  have hopen := hcorrect
  rw [correct] at hopen
  split at hopen
  · rename_i enumName members hpayload
    by_cases hempty : members.isEmpty = true
    · rw [if_pos hempty] at hopen
      cases hopen
    rw [if_neg hempty, Tree.flaggedNode] at hopen
    rcases hfound : t.nodeAt? d.span with - | n
    · rw [hfound] at hopen
      cases hopen
    rw [hfound] at hopen
    rcases hswitch : switchOn? t n d.span with - | x
    · simp only [bind, Except.bind, hswitch] at hopen
      cases hopen
    refine ⟨enumName, members, n, x, hpayload, ?_, rfl, hswitch, hcorrect⟩
    rintro rfl
    exact hempty rfl
  · cases hopen

/-- **What the fix adds.**  Where the fix works, it adds sections to a switch on what is flagged,
and nothing else in the text changes.  Without white space the sections are the missing cases, with
the indentations before them, so they are the cases alone exactly if both indentations are white
space, as they are where only white space stands between the tokens of the switch. -/
theorem exists_added_of_fix_eq_ok (h : provider.fix t d = .ok t') :
    ∃ x g enumName members before after, Below t.top x ∧ x.switchExpression? = some g ∧
      g.span = d.span ∧ d.payload = .missingEnumCases enumName members ∧
      t.text = before ++ after ∧
      t'.text = before ++ (sectionsText (indents x) enumName members ++ after) ∧
      bare (sectionsText (indents x) enumName members)
        = members.flatMap (bareSection (indents x) enumName) ∧
      (bare (sectionsText (indents x) enumName members) = members.flatMap (bareCase enumName) ↔
        Text.allWhite (indents x).ofSection = true ∧ Text.allWhite (indents x).ofStatement = true) ∧
      ((∀ y, Below x y → Text.allWhite y.leadingTrivia = true) →
        bare (sectionsText (indents x) enumName members)
          = members.flatMap (bareCase enumName)) := by
  obtain ⟨enumName, members, n, x, hpayload, hmembers, hfound, hswitch, hcorrect⟩ :=
    exists_of_fix_eq_ok h
  obtain ⟨hx, g, hg, hspan⟩ := of_switchOn?_eq_some hfound hswitch
  have hnode : x.isToken = false :=
    isToken_of_mem_children (of_switchExpression?_eq_some hg).2.1
  obtain ⟨pre, post, hcs, hindex⟩ := exists_insertionIndex_eq hx
  obtain ⟨fragments, hadd, hfragments⟩ := exists_addSections_eq t x enumName members
  rw [hindex] at hadd
  obtain ⟨t'', x', new, ht'', hsplice, -, hnew⟩ :=
    Tree.exists_edit_insert_splice hx hnode hcs fragments
  have hsame := correct_eq_ok hpayload hmembers hfound hswitch hadd ht''
  rw [hcorrect] at hsame
  obtain rfl := Except.ok.inj hsame
  have hsections : fullTextAll new = sectionsText (indents x) enumName members := by
    rw [← fullTextAll_map_shape fun c _ => c.fullText_shape, hnew, hfragments,
      fullTextAll_missingCases]
  obtain ⟨before, after, htext, htext'⟩ := hsplice.exists_text_eq
  rw [fullTextAll, String.empty_append] at htext
  rw [hsections] at htext'
  exact ⟨x, g, enumName, members, before, after, hx, hg, hspan, hpayload, htext, htext',
    bare_sectionsText _ _ _, bare_sectionsText_eq_iff hmembers,
    fun hwhite => (bare_sectionsText_eq_iff hmembers).mpr (allWhite_indents hwhite)⟩

/-- A switch over an enum, with a comment above its only section. -/
def commentedSwitch : Tree :=
  ⟨#[⟨.switchStatement, [1, 2, 3, 5, 6, 7, 16], none⟩, ⟨.switchKeyword, [], some ⟨"switch", ""⟩⟩,
      ⟨.openParenToken, [], some ⟨"(", " "⟩⟩, ⟨.identifierName, [4], none⟩,
      ⟨.identifierToken, [], some ⟨"hue", ""⟩⟩, ⟨.closeParenToken, [], some ⟨")", ""⟩⟩,
      ⟨.openBraceToken, [], some ⟨"\x7b", " "⟩⟩, ⟨.switchSection, [8, 13], none⟩,
      ⟨.caseSwitchLabel, [9, 10, 12], none⟩, ⟨.caseKeyword, [], some ⟨"case", "\n// warm\n"⟩⟩,
      ⟨.identifierName, [11], none⟩, ⟨.identifierToken, [], some ⟨"Red", " "⟩⟩,
      ⟨.colonToken, [], some ⟨":", ""⟩⟩, ⟨.breakStatement, [14, 15], none⟩,
      ⟨.breakKeyword, [], some ⟨"break", " "⟩⟩, ⟨.semicolonToken, [], some ⟨";", ""⟩⟩,
      ⟨.closeBraceToken, [], some ⟨"\x7d", "\n"⟩⟩],
    0, #[none, some 0, some 0, some 0, some 3, some 0, some 0, some 0, some 7, some 8, some 8,
      some 10, some 8, some 7, some 13, some 13, some 0], _, rfl, rfl⟩

/-- The report that the switch leaves out a member. -/
def blueMissing : Diagnostic where
  ruleId := "SC0002"
  severity := .warning
  message := "Missing enum member in switched cases."
  location := ⟨⟨"a.cs"⟩, ⟨8, 11⟩, 1, 9⟩
  payload := .missingEnumCases "Color" ["Blue"]

theorem exists_fix_blueMissing :
    ∃ t', provider.fix commentedSwitch blueMissing = .ok t' ∧
      t'.text = "switch (hue) \x7b\n// warm\ncase Red: break;"
        ++ "\n// warm\ncase Color.Blue: throw new NotImplementedException();" ++ "\n\x7d" := by
  have htext : (provider.fix commentedSwitch blueMissing).map Tree.text
      = .ok ("switch (hue) \x7b\n// warm\ncase Red: break;"
        ++ "\n// warm\ncase Color.Blue: throw new NotImplementedException();" ++ "\n\x7d") := by
    decide +kernel
  rcases hfix : provider.fix commentedSwitch blueMissing with e | t'
  · rw [hfix] at htext
    cases htext
  · rw [hfix] at htext
    exact ⟨t', rfl, Except.ok.inj htext⟩

theorem exists_added_of_fix_eq_ok_commentedSwitch :
    ∃ t' x before after, provider.fix commentedSwitch blueMissing = .ok t' ∧
      commentedSwitch.text = before ++ after ∧
      t'.text = before ++ (sectionsText (indents x) "Color" ["Blue"] ++ after) := by
  obtain ⟨t', ht', -⟩ := exists_fix_blueMissing
  obtain ⟨x, -, enumName, members, before, after, -, -, -, hpayload, htext, htext', -⟩ :=
    exists_added_of_fix_eq_ok ht'
  obtain ⟨rfl, rfl⟩ := Payload.missingEnumCases.inj hpayload
  exact ⟨t', x, before, after, ht', htext, htext'⟩

/-- The comment is added with the case, so what is added is more than the case. -/
theorem not_added_eq_flatMap_bareCase :
    ¬ ∀ (t : Tree) (d : Diagnostic) (t' : Tree), d.ruleId = "SC0002" → provider.fix t d = .ok t' →
      ∃ enumName members before piece after, d.payload = .missingEnumCases enumName members ∧
        t.text = before ++ after ∧ t'.text = before ++ (piece ++ after) ∧
        bare piece = members.flatMap (bareCase enumName) := by
  intro h
  obtain ⟨t', ht', hshown⟩ := exists_fix_blueMissing
  obtain ⟨enumName, members, before, piece, after, hpayload, htext, htext', hpiece⟩ :=
    h commentedSwitch blueMissing t' rfl ht'
  obtain ⟨rfl, rfl⟩ := Payload.missingEnumCases.inj hpayload
  -- wherever the piece stands, it has as many characters as the text has more than before
  have hlength : (bare t'.text).length
      = (bare commentedSwitch.text).length + (bare piece).length := by
    rw [htext, htext']
    simp only [Text.bare_append, List.length_append]
    omega
  rw [hshown, hpiece] at hlength
  exact absurd hlength (by decide +kernel)

end MissingCasesFix

end TreeLint
