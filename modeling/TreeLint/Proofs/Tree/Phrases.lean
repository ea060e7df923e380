/-
TreeLint/Proofs/Tree/Phrases.lean

The shapes that phrases build.

The steps of a phrase differ from those of a shape in where trivia is queued:
a phrase queues it as soon as it is known, a shape right before the token that
takes it.  Opening a node does not touch queued trivia, so the two build the same
tree.

The texts of the phrases are given here in full:

    nameof(Name)
    case Enum.Member: throw new NotImplementedException();

the second one with the given indentation before each of its two parts.
-/
import TreeLint.Proofs.Tree.Rewriting
import TreeLint.Tree.Phrase

namespace TreeLint

/-! ### The shapes -/

namespace Shape

/-- A token spelled as its kind demands. -/
def fixed (kind : Kind) (trivia : String) : Shape := .token kind ⟨kind.fixedText?.getD "", trivia⟩

/-- A name as an expression. -/
def identifierName (name trivia : String) : Shape :=
  .node .identifierName [.token .identifierToken ⟨name, trivia⟩]

/-- The expression `nameof(name)`. -/
def nameOf (name : String) : Shape :=
  .node .nameOfExpression
    [fixed .nameOfKeyword "", fixed .openParenToken "", identifierName name "",
      fixed .closeParenToken ""]

/-- The expression `Enum.Member`, behind a keyword. -/
def memberAccess (enumName member : String) : Shape :=
  .node .simpleMemberAccessExpression
    [identifierName enumName " ", fixed .dotToken "", identifierName member ""]

/-- The label `case Enum.Member:`. -/
def caseLabel (enumName member trivia : String) : Shape :=
  .node .caseSwitchLabel
    [fixed .caseKeyword trivia, memberAccess enumName member, fixed .colonToken ""]

/-- The statement `throw new NotImplementedException();`. -/
def throwNotImplemented (trivia : String) : Shape :=
  .node .throwStatement
    [fixed .throwKeyword trivia,
      .node .objectCreationExpression
        [fixed .newKeyword " ", identifierName "NotImplementedException" " ",
          .node .argumentList [fixed .openParenToken "", fixed .closeParenToken ""]],
      fixed .semicolonToken ""]

/-- A switch section for one enum member, whose body throws. -/
def missingCase (enumName member sectionIndent statementIndent : String) : Shape :=
  .node .switchSection
    [caseLabel enumName member sectionIndent, throwNotImplemented statementIndent]

/-! ### Their texts -/

theorem fullText_nameOf (name : String) :
    (nameOf name).fullText = "nameof(" ++ name ++ ")" := by
  have htext : (nameOf name).fullText = "nameof" ++ ("(" ++ (name ++ ")")) := by
    simp [nameOf, fixed, identifierName, fullTextAll, Kind.fixedText?, Kind.keyword?,
      Kind.punctuation?]
  have hopen : "nameof(" = "nameof" ++ "(" := by decide
  rw [htext, hopen]
  simp only [String.append_assoc]

theorem fullText_missingCase (enumName member sectionIndent statementIndent : String) :
    (missingCase enumName member sectionIndent statementIndent).fullText
      = sectionIndent ++ "case " ++ enumName ++ "." ++ member ++ ":"
        ++ statementIndent ++ "throw new NotImplementedException();" := by
  have hcase : "case " = "case" ++ " " := by decide
  have hthrow : "throw new NotImplementedException();"
      = "throw" ++ " new NotImplementedException();" := by decide
  have htext : (missingCase enumName member sectionIndent statementIndent).fullText
      = sectionIndent ++ "case" ++ (" " ++ enumName ++ ("." ++ member) ++ ":")
        ++ (statementIndent ++ "throw" ++ " new NotImplementedException();") := by
    simp [missingCase, caseLabel, memberAccess, throwNotImplemented, fixed, identifierName,
      fullTextAll, Kind.fixedText?, Kind.keyword?, Kind.punctuation?]
  rw [htext, hcase, hthrow]
  simp only [String.append_assoc]

/-- The first token of `nameof(name)` takes trivia that it has not had. -/
theorem fullText_withTrivia_nameOf (name trivia : String) :
    ((nameOf name).withTrivia trivia).fullText = trivia ++ (nameOf name).fullText := by
  simp only [nameOf, fixed, withTrivia, withTriviaIn, hasToken_token, if_true, fullText_node,
    fullTextAll, fullText_token, String.empty_append, String.append_assoc]

/-! ### The kinds in them -/

mutual

/-- The kinds of all that is in a shape, in document order. -/
def kinds : Shape → List Kind
  | token kind _ => [kind]
  | node kind ss => kind :: kindsAll ss

/-- The kinds of all that is in several shapes. -/
def kindsAll : List Shape → List Kind
  | [] => []
  | s :: ss => s.kinds ++ kindsAll ss

end

theorem mem_kindsAll {k : Kind} {ss : List Shape} : k ∈ kindsAll ss ↔ ∃ s ∈ ss, k ∈ s.kinds := by
  induction ss with
  | nil => simp [kindsAll]
  | cons s ss ih => simp [kindsAll, ih]

/-- Other trivia make no other kinds. -/
theorem kinds_withTrivia (trivia : String) (s : Shape) : (s.withTrivia trivia).kinds = s.kinds := by
  induction s using Shape.induction with
  | token k t => rfl
  | node k ss ih =>
    have hss : kindsAll (withTriviaIn trivia ss) = kindsAll ss := by
      induction ss with
      | nil => rfl
      | cons s ss ihss =>
        rw [withTriviaIn]
        split
        · rw [kindsAll, ih s List.mem_cons_self, kindsAll]
        · rw [kindsAll, ihss fun r hr => ih r (List.mem_cons_of_mem s hr), kindsAll]
    rw [withTrivia, kinds, hss, kinds]

/-- The kind of what lies in an element is among those of its shape. -/
theorem kind_mem_kinds {e x : Element} (h : Element.Below e x) : x.kind ∈ e.shape.kinds := by
  induction h with
  | refl e => cases e <;> simp [kinds]
  | @child e c x hc _ ih =>
    rw [Element.eq_node (Element.isToken_of_mem_children hc), Element.shape_node, kinds]
    apply List.mem_cons_of_mem
    exact mem_kindsAll.mpr ⟨c.shape, List.mem_map_of_mem hc, ih⟩

theorem kinds_nameOf (name : String) :
    (nameOf name).kinds = [.nameOfExpression, .nameOfKeyword, .openParenToken, .identifierName,
      .identifierToken, .closeParenToken] := rfl

theorem kinds_missingCase (enumName member sectionIndent statementIndent : String) :
    (missingCase enumName member sectionIndent statementIndent).kinds
      = [.switchSection, .caseSwitchLabel, .caseKeyword, .simpleMemberAccessExpression,
        .identifierName, .identifierToken, .dotToken, .identifierName, .identifierToken,
        .colonToken, .throwStatement, .throwKeyword, .objectCreationExpression, .newKeyword,
        .identifierName, .identifierToken, .argumentList, .openParenToken, .closeParenToken,
        .semicolonToken] := rfl

end Shape

/-! ### Phrases build them -/

theorem Builder.run_nameOf (b : Builder) (name : String) :
    b.run (Phrase.nameOf name) = b.run (Shape.nameOf name).steps := by
  simp [Phrase.nameOf, Phrase.node, Phrase.fixed, Phrase.identifierName, Phrase.identifier,
    Shape.nameOf, Shape.fixed, Shape.identifierName, Shape.steps, Shape.stepsAll, run_cons,
    step_queueTrivia_empty]

theorem Builder.run_missingCase (b : Builder)
    (enumName member sectionIndent statementIndent : String) :
    b.run (Phrase.missingCase enumName member sectionIndent statementIndent)
      = b.run (Shape.missingCase enumName member sectionIndent statementIndent).steps := by
  simp [Phrase.missingCase, Phrase.caseLabel, Phrase.throwNotImplemented, Phrase.memberAccess,
    Phrase.trivia, Phrase.node, Phrase.fixed, Phrase.identifierName, Phrase.identifier,
    Shape.missingCase, Shape.caseLabel, Shape.memberAccess, Shape.throwNotImplemented, Shape.fixed,
    Shape.identifierName, Shape.steps, Shape.stepsAll, run_cons, step_queueTrivia_empty,
    step_queueTrivia_openNode]

namespace Tree

theorem exists_ofSteps_nameOf (name : String) :
    ∃ t, ofSteps (Phrase.nameOf name) = .ok t ∧ t.top.shape = Shape.nameOf name := by
  rw [ofSteps, Builder.run_nameOf]
  exact exists_ofSteps_steps (Shape.nameOf name)

theorem exists_ofSteps_missingCase (enumName member sectionIndent statementIndent : String) :
    ∃ t, ofSteps (Phrase.missingCase enumName member sectionIndent statementIndent) = .ok t ∧
      t.top.shape = Shape.missingCase enumName member sectionIndent statementIndent := by
  rw [ofSteps, Builder.run_missingCase]
  exact exists_ofSteps_steps (Shape.missingCase enumName member sectionIndent statementIndent)

end Tree

end TreeLint
