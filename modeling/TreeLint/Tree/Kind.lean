/-
TreeLint/Tree/Kind.lean

The closed set of kinds an element of a tree can have.  Interior nodes and
tokens share one type, so an action can be attached to either in the same
way.

A kind whose spelling never varies is a *keyword* or a *punctuation* kind;
`fixedText?` gives the spelling.  The remaining tokens (identifiers and the
two literals) carry their own text.
-/

namespace TreeLint

/-- The kind of a node or token. -/
inductive Kind where
  -- declarations
  | compilationUnit
  | usingDirective
  | namespaceDeclaration
  | classDeclaration
  | enumDeclaration
  | enumMemberDeclaration
  | baseList
  | attributeList
  | attribute
  | methodDeclaration
  | propertyDeclaration
  | accessorList
  | getAccessorDeclaration
  | setAccessorDeclaration
  | fieldDeclaration
  | eventFieldDeclaration
  | parameterList
  | parameter
  -- statements
  | block
  | expressionStatement
  | returnStatement
  | throwStatement
  | breakStatement
  | switchStatement
  | switchSection
  | caseSwitchLabel
  | casePatternSwitchLabel
  | defaultSwitchLabel
  | whenClause
  | constantPattern
  -- expressions
  | invocationExpression
  | argumentList
  | argument
  | literalExpression
  | parenthesizedExpression
  | identifierName
  | predefinedType
  | simpleMemberAccessExpression
  | nameOfExpression
  | simpleAssignmentExpression
  | castExpression
  | objectCreationExpression
  -- tokens
  | identifierToken
  | stringLiteralToken
  | numericLiteralToken
  | usingKeyword
  | namespaceKeyword
  | classKeyword
  | enumKeyword
  | publicKeyword
  | privateKeyword
  | protectedKeyword
  | internalKeyword
  | staticKeyword
  | partialKeyword
  | overrideKeyword
  | virtualKeyword
  | sealedKeyword
  | abstractKeyword
  | eventKeyword
  | getKeyword
  | setKeyword
  | returnKeyword
  | switchKeyword
  | caseKeyword
  | defaultKeyword
  | whenKeyword
  | breakKeyword
  | throwKeyword
  | newKeyword
  | trueKeyword
  | falseKeyword
  | nullKeyword
  | nameOfKeyword
  | voidKeyword
  | boolKeyword
  | intKeyword
  | stringKeyword
  | objectKeyword
  | openBraceToken
  | closeBraceToken
  | openParenToken
  | closeParenToken
  | openBracketToken
  | closeBracketToken
  | semicolonToken
  | colonToken
  | commaToken
  | dotToken
  | equalsToken
  | endOfFileToken
  deriving DecidableEq, Repr, Inhabited

namespace Kind

/-- Every kind, in declaration order. -/
def all : List Kind :=
  [.compilationUnit, .usingDirective, .namespaceDeclaration, .classDeclaration, .enumDeclaration,
   .enumMemberDeclaration, .baseList, .attributeList, .attribute, .methodDeclaration,
   .propertyDeclaration, .accessorList, .getAccessorDeclaration, .setAccessorDeclaration,
   .fieldDeclaration, .eventFieldDeclaration, .parameterList, .parameter, .block,
   .expressionStatement, .returnStatement, .throwStatement, .breakStatement, .switchStatement,
   .switchSection, .caseSwitchLabel, .casePatternSwitchLabel, .defaultSwitchLabel, .whenClause,
   .constantPattern, .invocationExpression, .argumentList, .argument, .literalExpression,
   .parenthesizedExpression, .identifierName, .predefinedType, .simpleMemberAccessExpression,
   .nameOfExpression, .simpleAssignmentExpression, .castExpression, .objectCreationExpression,
   .identifierToken, .stringLiteralToken, .numericLiteralToken, .usingKeyword, .namespaceKeyword,
   .classKeyword, .enumKeyword, .publicKeyword, .privateKeyword, .protectedKeyword,
   .internalKeyword, .staticKeyword, .partialKeyword, .overrideKeyword, .virtualKeyword,
   .sealedKeyword, .abstractKeyword, .eventKeyword, .getKeyword, .setKeyword, .returnKeyword,
   .switchKeyword, .caseKeyword, .defaultKeyword, .whenKeyword, .breakKeyword, .throwKeyword,
   .newKeyword, .trueKeyword, .falseKeyword, .nullKeyword, .nameOfKeyword, .voidKeyword,
   .boolKeyword, .intKeyword, .stringKeyword, .objectKeyword, .openBraceToken, .closeBraceToken,
   .openParenToken, .closeParenToken, .openBracketToken, .closeBracketToken, .semicolonToken,
   .colonToken, .commaToken, .dotToken, .equalsToken, .endOfFileToken]

/-- The name a kind is written with in snapshots and messages. -/
def name : Kind → String
  | .compilationUnit => "CompilationUnit"
  | .usingDirective => "UsingDirective"
  | .namespaceDeclaration => "NamespaceDeclaration"
  | .classDeclaration => "ClassDeclaration"
  | .enumDeclaration => "EnumDeclaration"
  | .enumMemberDeclaration => "EnumMemberDeclaration"
  | .baseList => "BaseList"
  | .attributeList => "AttributeList"
  | .attribute => "Attribute"
  | .methodDeclaration => "MethodDeclaration"
  | .propertyDeclaration => "PropertyDeclaration"
  | .accessorList => "AccessorList"
  | .getAccessorDeclaration => "GetAccessorDeclaration"
  | .setAccessorDeclaration => "SetAccessorDeclaration"
  | .fieldDeclaration => "FieldDeclaration"
  | .eventFieldDeclaration => "EventFieldDeclaration"
  | .parameterList => "ParameterList"
  | .parameter => "Parameter"
  | .block => "Block"
  | .expressionStatement => "ExpressionStatement"
  | .returnStatement => "ReturnStatement"
  | .throwStatement => "ThrowStatement"
  | .breakStatement => "BreakStatement"
  | .switchStatement => "SwitchStatement"
  | .switchSection => "SwitchSection"
  | .caseSwitchLabel => "CaseSwitchLabel"
  | .casePatternSwitchLabel => "CasePatternSwitchLabel"
  | .defaultSwitchLabel => "DefaultSwitchLabel"
  | .whenClause => "WhenClause"
  | .constantPattern => "ConstantPattern"
  | .invocationExpression => "InvocationExpression"
  | .argumentList => "ArgumentList"
  | .argument => "Argument"
  | .literalExpression => "LiteralExpression"
  | .parenthesizedExpression => "ParenthesizedExpression"
  | .identifierName => "IdentifierName"
  | .predefinedType => "PredefinedType"
  | .simpleMemberAccessExpression => "SimpleMemberAccessExpression"
  | .nameOfExpression => "NameOfExpression"
  | .simpleAssignmentExpression => "SimpleAssignmentExpression"
  | .castExpression => "CastExpression"
  | .objectCreationExpression => "ObjectCreationExpression"
  | .identifierToken => "IdentifierToken"
  | .stringLiteralToken => "StringLiteralToken"
  | .numericLiteralToken => "NumericLiteralToken"
  | .usingKeyword => "UsingKeyword"
  | .namespaceKeyword => "NamespaceKeyword"
  | .classKeyword => "ClassKeyword"
  | .enumKeyword => "EnumKeyword"
  | .publicKeyword => "PublicKeyword"
  | .privateKeyword => "PrivateKeyword"
  | .protectedKeyword => "ProtectedKeyword"
  | .internalKeyword => "InternalKeyword"
  | .staticKeyword => "StaticKeyword"
  | .partialKeyword => "PartialKeyword"
  | .overrideKeyword => "OverrideKeyword"
  | .virtualKeyword => "VirtualKeyword"
  | .sealedKeyword => "SealedKeyword"
  | .abstractKeyword => "AbstractKeyword"
  | .eventKeyword => "EventKeyword"
  | .getKeyword => "GetKeyword"
  | .setKeyword => "SetKeyword"
  | .returnKeyword => "ReturnKeyword"
  | .switchKeyword => "SwitchKeyword"
  | .caseKeyword => "CaseKeyword"
  | .defaultKeyword => "DefaultKeyword"
  | .whenKeyword => "WhenKeyword"
  | .breakKeyword => "BreakKeyword"
  | .throwKeyword => "ThrowKeyword"
  | .newKeyword => "NewKeyword"
  | .trueKeyword => "TrueKeyword"
  | .falseKeyword => "FalseKeyword"
  | .nullKeyword => "NullKeyword"
  | .nameOfKeyword => "NameOfKeyword"
  | .voidKeyword => "VoidKeyword"
  | .boolKeyword => "BoolKeyword"
  | .intKeyword => "IntKeyword"
  | .stringKeyword => "StringKeyword"
  | .objectKeyword => "ObjectKeyword"
  | .openBraceToken => "OpenBraceToken"
  | .closeBraceToken => "CloseBraceToken"
  | .openParenToken => "OpenParenToken"
  | .closeParenToken => "CloseParenToken"
  | .openBracketToken => "OpenBracketToken"
  | .closeBracketToken => "CloseBracketToken"
  | .semicolonToken => "SemicolonToken"
  | .colonToken => "ColonToken"
  | .commaToken => "CommaToken"
  | .dotToken => "DotToken"
  | .equalsToken => "EqualsToken"
  | .endOfFileToken => "EndOfFileToken"

/-- The kind of a given name; names are case-sensitive. -/
def ofName? (s : String) : Option Kind :=
  all.find? (·.name == s)

/-- The spelling of a keyword kind. -/
def keyword? : Kind → Option String
  | .usingKeyword => some "using"
  | .namespaceKeyword => some "namespace"
  | .classKeyword => some "class"
  | .enumKeyword => some "enum"
  | .publicKeyword => some "public"
  | .privateKeyword => some "private"
  | .protectedKeyword => some "protected"
  | .internalKeyword => some "internal"
  | .staticKeyword => some "static"
  | .partialKeyword => some "partial"
  | .overrideKeyword => some "override"
  | .virtualKeyword => some "virtual"
  | .sealedKeyword => some "sealed"
  | .abstractKeyword => some "abstract"
  | .eventKeyword => some "event"
  | .getKeyword => some "get"
  | .setKeyword => some "set"
  | .returnKeyword => some "return"
  | .switchKeyword => some "switch"
  | .caseKeyword => some "case"
  | .defaultKeyword => some "default"
  | .whenKeyword => some "when"
  | .breakKeyword => some "break"
  | .throwKeyword => some "throw"
  | .newKeyword => some "new"
  | .trueKeyword => some "true"
  | .falseKeyword => some "false"
  | .nullKeyword => some "null"
  | .nameOfKeyword => some "nameof"
  | .voidKeyword => some "void"
  | .boolKeyword => some "bool"
  | .intKeyword => some "int"
  | .stringKeyword => some "string"
  | .objectKeyword => some "object"
  | _ => none

/-- The spelling of a punctuation kind; the end of the file is spelled by nothing. -/
def punctuation? : Kind → Option String
  | .openBraceToken => some "\x7b"
  | .closeBraceToken => some "\x7d"
  | .openParenToken => some "("
  | .closeParenToken => some ")"
  | .openBracketToken => some "["
  | .closeBracketToken => some "]"
  | .semicolonToken => some ";"
  | .colonToken => some ":"
  | .commaToken => some ","
  | .dotToken => some "."
  | .equalsToken => some "="
  | .endOfFileToken => some ""
  | _ => none

/-- The spelling of a kind that has only one. -/
def fixedText? (k : Kind) : Option String :=
  k.keyword? <|> k.punctuation?

/-- Whether the kind is a keyword. -/
def isKeyword (k : Kind) : Bool :=
  k.keyword?.isSome

/-- Whether the kind is meant for tokens: keywords, punctuation, identifiers and literals. -/
def isToken (k : Kind) : Bool :=
  k.fixedText?.isSome || k == .identifierToken || k == .stringLiteralToken
    || k == .numericLiteralToken

/-- Whether the kind can modify a declaration. -/
def isModifier : Kind → Bool
  | .publicKeyword | .privateKeyword | .protectedKeyword | .internalKeyword | .staticKeyword
  | .partialKeyword | .overrideKeyword | .virtualKeyword | .sealedKeyword | .abstractKeyword => true
  | _ => false

end Kind

end TreeLint
