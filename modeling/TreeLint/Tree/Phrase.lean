/-
TreeLint/Tree/Phrase.lean

Phrases: the build steps of common pieces of source.  Fixes assemble what
they insert from these.
-/
import TreeLint.Text.Literal
import TreeLint.Tree.Builder

namespace TreeLint.Phrase

/-- A token with text of its own; trivia queued before it goes in front. -/
def token (kind : Kind) (text : String) (trivia : String := "") : List BuildStep :=
  [.queueTrivia trivia, .addToken kind text]

/-- A token spelled as its kind demands; empty when the kind fixes no spelling. -/
def fixed (kind : Kind) : List BuildStep :=
  [.addToken kind (kind.fixedText?.getD "")]

/-- Whitespace or comments before the next token. -/
def trivia (text : String) : List BuildStep :=
  [.queueTrivia text]

/-- A node around what `body` builds. -/
def node (kind : Kind) (body : List BuildStep) : List BuildStep :=
  .openNode kind :: (body ++ [.closeNode])

/-- An identifier token. -/
def identifier (name : String) : List BuildStep :=
  [.addToken .identifierToken name]

/-- A name as an expression. -/
def identifierName (name : String) : List BuildStep :=
  node .identifierName (identifier name)

/-- A type written as a keyword. -/
def predefinedType (keyword : Kind) : List BuildStep :=
  node .predefinedType (fixed keyword)

/-- A regular string literal that denotes `value`. -/
def stringLiteral (value : String) : List BuildStep :=
  node .literalExpression [.addToken .stringLiteralToken (Text.Literal.encode value)]

/-- A numeric literal. -/
def numericLiteral (text : String) : List BuildStep :=
  node .literalExpression [.addToken .numericLiteralToken text]

/-- A truth value. -/
def boolLiteral (value : Bool) : List BuildStep :=
  node .literalExpression (fixed (if value then .trueKeyword else .falseKeyword))

/-- Member access, `target.name`. -/
def memberAccess (target name : String) : List BuildStep :=
  node .simpleMemberAccessExpression
    (identifierName target ++ fixed .dotToken ++ identifierName name)

/-- Parentheses around what `body` builds. -/
def parenthesized (body : List BuildStep) : List BuildStep :=
  node .parenthesizedExpression (fixed .openParenToken ++ body ++ fixed .closeParenToken)

/-- The expression `nameof(name)`. -/
def nameOf (name : String) : List BuildStep :=
  node .nameOfExpression
    (fixed .nameOfKeyword ++ fixed .openParenToken ++ identifierName name
      ++ fixed .closeParenToken)

/-- The label `case Enum.Member:`. -/
def caseLabel (enumName member : String) : List BuildStep :=
  node .caseSwitchLabel
    (fixed .caseKeyword ++ trivia " " ++ memberAccess enumName member ++ fixed .colonToken)

/-- The statement `throw new NotImplementedException();`. -/
def throwNotImplemented : List BuildStep :=
  node .throwStatement
    (fixed .throwKeyword
      ++ node .objectCreationExpression
          (trivia " " ++ fixed .newKeyword ++ trivia " " ++ identifierName "NotImplementedException"
            ++ node .argumentList (fixed .openParenToken ++ fixed .closeParenToken))
      ++ fixed .semicolonToken)

/-- A switch section for one enum member, whose body throws. -/
def missingCase (enumName member sectionIndent statementIndent : String) : List BuildStep :=
  trivia sectionIndent
    ++ node .switchSection
        (caseLabel enumName member ++ trivia statementIndent ++ throwNotImplemented)

end TreeLint.Phrase
