/-
TreeLint/Fix/Provider.lean

Providers of fixes.  A provider serves some rules: given a tree and a
diagnostic of one of them, it makes a corrected tree or says why it cannot.
The given tree never changes.

A fix is safe when it keeps the meaning of the source, and risky when it may
change what the program does.
-/
import TreeLint.Diagnostic
import TreeLint.Tree.Basic

namespace TreeLint

/-- Whether a fix keeps the meaning of the source. -/
inductive FixSafety where
  | safe | risky
  deriving DecidableEq, Repr, Inhabited

instance : Named FixSafety where
  all := [.safe, .risky]
  name
    | .safe => "safe"
    | .risky => "unsafe"

/-- Why there is no fix. -/
inductive FixError where
  | notApplicable (span : Span) (reason : String)
  | wrongNode (expected : Kind) (span : Span)
  | missingPayload (ruleId : String)
  | unsupportedRule (ruleId : String)
  | tree (error : TreeError)
  deriving DecidableEq, Repr

/-- The message shown for the error. -/
def FixError.message : FixError → String
  | notApplicable span reason => "fix not applicable at " ++ span.render ++ ": " ++ reason
  | wrongNode expected span => "expected " ++ expected.name ++ " at " ++ span.render
  | missingPayload ruleId => "diagnostic " ++ ruleId ++ " carries no properties for its fix"
  | unsupportedRule ruleId => "rule " ++ ruleId ++ " is not handled by this fix"
  | tree error => "rewrite failed: " ++ error.message

/-- A source of fixes for some rules.  `correct` is only asked about diagnostics of these rules. -/
structure FixProvider where
  ruleIds : List String
  title : Diagnostic → String
  safety : FixSafety := .safe
  correct : Tree → Diagnostic → Except FixError Tree

namespace FixProvider

/-- Whether the provider serves a rule. -/
def canFix (p : FixProvider) (ruleId : String) : Bool :=
  p.ruleIds.contains ruleId

/-- The tree with a diagnostic fixed. -/
def fix (p : FixProvider) (t : Tree) (d : Diagnostic) : Except FixError Tree :=
  if p.canFix d.ruleId then p.correct t d else .error (.unsupportedRule d.ruleId)

end FixProvider

/-- The node that a diagnostic is about. -/
def Tree.flaggedNode (t : Tree) (span : Span) : Except FixError Element :=
  match t.nodeAt? span with
  | some e => .ok e
  | none => .error (.notApplicable span "no node at diagnostic span")

end TreeLint
