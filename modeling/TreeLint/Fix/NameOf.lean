/-
TreeLint/Fix/NameOf.lean

The fix of `SC0003`: the string literal with the name of a property becomes a
`nameof` expression.  Parentheses around the literal stay.
-/
import TreeLint.Fix.Provider
import TreeLint.Tree.Phrase
import TreeLint.Tree.Query
import TreeLint.Tree.Edits

namespace TreeLint.NameOfFix

/-- The name that a diagnostic suggests. -/
def propertyName? (d : Diagnostic) : Option String :=
  match d.payload with
  | .nameOfCandidate name => some name
  | _ => none

/-- What the fix of a diagnostic is called. -/
def title (d : Diagnostic) : String :=
  match propertyName? d with
  | some name => "Use nameof(" ++ name ++ ")"
  | none => "Use nameof"

/-- Whether an element is a string literal. -/
def isStringLiteral (e : Element) : Bool :=
  e.kind == .literalExpression && (e.childOfKind? .stringLiteralToken).isSome

/-- Puts `nameof` in the place of the flagged literal. -/
def correct (t : Tree) (d : Diagnostic) : Except FixError Tree := do
  let some name := propertyName? d | .error (.missingPayload d.ruleId)
  let literal := (← t.flaggedNode d.span).peelParentheses
  if !isStringLiteral literal then .error (.wrongNode .literalExpression d.span)
  let replacement ← (Tree.ofSteps (Phrase.nameOf name)).mapError .tree
  (t.edit (({} : Edits).replace literal.id replacement)).mapError .tree

/-- The provider of the fix. -/
def provider : FixProvider where
  ruleIds := ["SC0003"]
  title := title
  correct := correct

end TreeLint.NameOfFix
