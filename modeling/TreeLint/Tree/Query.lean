/-
TreeLint/Tree/Query.lean

Questions about the analysed language that both analyses and fixes ask:
names, parentheses, the governing expression of a switch, and whether code
belongs to a test.
-/
import TreeLint.Tree.Basic

namespace TreeLint

namespace Element

/-- The text of a simple name. -/
def identifierText? (e : Element) : Option String :=
  if e.kind = .identifierName then (e.childOfKind? .identifierToken).map tokenText else none

/-- The token that names a type or member declaration. -/
def declarationIdentifier? (e : Element) : Option Element :=
  e.childOfKind? .identifierToken

/-- The expression that a switch statement branches on. -/
def switchExpression? (e : Element) : Option Element :=
  if e.kind = .switchStatement then e.childNodes.find? (·.kind != .switchSection) else none

mutual

/-- The expression inside any number of parentheses. -/
def peelParentheses : Element → Element
  | e@(token _ _) => e
  | e@(node l cs) =>
    if l.kind = .parenthesizedExpression then (peelFirstNode? cs).getD e else e

/-- The expression inside the parentheses of the first node among several elements. -/
def peelFirstNode? : List Element → Option Element
  | [] => none
  | c :: cs => if c.isToken then peelFirstNode? cs else some c.peelParentheses

end

/-! ### Test code -/

/-- Names of attributes that mark a test method. -/
def testAttributes : List String := ["Test", "TestMethod", "Fact", "Theory"]

/-- A name without a final `Attribute`. -/
def shortAttributeName (name : String) : String :=
  let cs := name.toList
  let ending := "Attribute".toList
  if ending.isSuffixOf cs then String.ofList (cs.take (cs.length - ending.length)) else name

/-- Whether the first attribute list of a method marks it as a test. -/
def hasTestAttribute (method : Element) : Bool :=
  match method.childOfKind? .attributeList with
  | none => false
  | some list =>
    ((list.childNodes.filter (·.kind == .attribute)).filterMap fun a =>
      (a.childOfKind? .identifierName).bind identifierText?).any fun name =>
        testAttributes.contains (shortAttributeName name)

end Element

namespace Tree

/-- Whether the nearest method around an element, or the element itself, is a test. -/
def isInTestMethod (t : Tree) (e : Element) : Bool :=
  ((e :: t.ancestors e.id).find? (·.kind == .methodDeclaration)).any Element.hasTestAttribute

end Tree

end TreeLint
