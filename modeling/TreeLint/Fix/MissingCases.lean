/-
TreeLint/Fix/MissingCases.lean

The fix of `SC0002`: a switch gets a section for every enum member that it
does not cover.  The new sections stand before the default section, else
before the closing brace, and take their indentation from the first section
of the switch.  Their bodies throw, so the fix is risky.
-/
import TreeLint.Fix.Provider
import TreeLint.Tree.Phrase
import TreeLint.Tree.Query
import TreeLint.Tree.Edits

namespace TreeLint.MissingCasesFix

/-- What the fix of a diagnostic is called. -/
def title (d : Diagnostic) : String :=
  match d.payload with
  | .missingEnumCases _ [member] => "Add case for " ++ member
  | .missingEnumCases _ members => "Add " ++ toString members.length ++ " missing cases"
  | _ => "Add missing cases"

/-! ### Where sections go -/

/-- One step of indentation. -/
def indentStep : String := "    "

/-- Whether nodes of a kind are labels of a section. -/
def isLabel (kind : Kind) : Bool :=
  kind == .caseSwitchLabel || kind == .casePatternSwitchLabel || kind == .defaultSwitchLabel

/-- The sections of a switch. -/
def sections (switch : Element) : List Element :=
  switch.childNodes.filter (·.kind == .switchSection)

/-- Whether a section has a default label. -/
def isDefault (s : Element) : Bool :=
  s.childNodes.any (·.kind == .defaultSwitchLabel)

/-- The child of a switch that new sections stand before. -/
def anchor? (switch : Element) : Option Element :=
  (sections switch).find? isDefault <|> switch.childOfKind? .closeBraceToken

/-- The place among the children of a switch where new sections go. -/
def insertionIndex (t : Tree) (switch : Element) : Nat :=
  ((anchor? switch).bind fun e => t.indexInParent? e.id).getD switch.children.length

/-- What stands before a section and before a statement in it. -/
structure Indents where
  ofSection : String
  ofStatement : String
  deriving DecidableEq, Repr

/-- The indentation of the sections of a switch. -/
def indents (switch : Element) : Indents :=
  match sections switch with
  | first :: _ =>
    let outer := first.leadingTrivia
    let statement? := first.childNodes.find? (!isLabel ·.kind)
    ⟨outer, (statement?.map Element.leadingTrivia).getD (outer ++ indentStep)⟩
  | [] =>
    let closing := ((switch.childOfKind? .closeBraceToken).map Element.leadingTrivia).getD "\n"
    ⟨closing ++ indentStep, closing ++ indentStep ++ indentStep⟩

/-! ### The fix -/

/-- The switch that branches on the expression at a span: the element itself or the nearest one
around it. -/
def switchOn? (t : Tree) (e : Element) (span : Span) : Option Element :=
  (e :: t.ancestors e.id).find? fun n =>
    n.kind == .switchStatement && n.switchExpression?.any (·.span == span)

/-- Adds sections for the members of an enum to a switch. -/
def addSections (t : Tree) (switch : Element) (enumName : String) (members : List String) :
    Except TreeError Edits :=
  let indents := indents switch
  members.foldlM (fun edits member => do
    let fragment ← Tree.ofSteps
      (Phrase.missingCase enumName member indents.ofSection indents.ofStatement)
    return edits.insert switch.id (insertionIndex t switch) fragment) {}

/-- Adds the missing sections to the flagged switch. -/
def correct (t : Tree) (d : Diagnostic) : Except FixError Tree := do
  let .missingEnumCases enumName members := d.payload | .error (.missingPayload d.ruleId)
  if members.isEmpty then .error (.notApplicable d.span "no missing members")
  let expression ← t.flaggedNode d.span
  let some switch := switchOn? t expression d.span | .error (.wrongNode .switchStatement d.span)
  let edits ← (addSections t switch enumName members).mapError .tree
  (t.edit edits).mapError .tree

/-- The provider of the fix. -/
def provider : FixProvider where
  ruleIds := ["SC0002"]
  title := title
  safety := .risky
  correct := correct

end TreeLint.MissingCasesFix
