/-
TreeLint/Symbol/Basic.lean

Symbols: the declarations a host has resolved.  A symbol may have a
container and, if it is an override, the member it overrides; both are
numbers of other symbols and need not lead anywhere.
-/
import TreeLint.Named

namespace TreeLint

/-- The number of a symbol in its table.  Such numbers are kept in 32 bits, and one that is read
fits in them; here they have no bound.  What is proved of a table of symbols is thus meant of tables
with at most `2 ^ 32` of them, and no other table can be read (`SymbolTable.size_le_of_read`). -/
abbrev SymbolId := Nat

/-- What a symbol declares. -/
inductive SymbolKind where
  | namespaceScope | namedType | method | property | field | event | enumMember | parameter
  | localVariable
  deriving DecidableEq, Repr, Inhabited

instance : Named SymbolKind where
  all := [.namespaceScope, .namedType, .method, .property, .field, .event, .enumMember,
    .parameter, .localVariable]
  name
    | .namespaceScope => "namespace"
    | .namedType => "named_type"
    | .method => "method"
    | .property => "property"
    | .field => "field"
    | .event => "event"
    | .enumMember => "enum_member"
    | .parameter => "parameter"
    | .localVariable => "local"

/-- What kind of type a named type is. -/
inductive TypeKind where
  | classType | structType | interfaceType | enumType | delegateType
  deriving DecidableEq, Repr, Inhabited

instance : Named TypeKind where
  all := [.classType, .structType, .interfaceType, .enumType, .delegateType]
  name
    | .classType => "class"
    | .structType => "struct"
    | .interfaceType => "interface"
    | .enumType => "enum"
    | .delegateType => "delegate"

/-- Types that a host marks as well known. -/
inductive SpecialType where
  | object | string | boolean | int32 | void
  deriving DecidableEq, Repr, Inhabited

instance : Named SpecialType where
  all := [.object, .string, .boolean, .int32, .void]
  name
    | .object => "object"
    | .string => "string"
    | .boolean => "boolean"
    | .int32 => "int32"
    | .void => "void"

/-- A resolved declaration. -/
structure Symbol where
  id : SymbolId := 0
  name : String
  kind : SymbolKind
  typeKind : Option TypeKind := none
  container : Option SymbolId := none
  parameterCount : Nat := 0
  isOverride : Bool := false
  overridden : Option SymbolId := none
  implicitlyDeclared : Bool := false
  special : Option SpecialType := none
  deriving DecidableEq, Repr, Inhabited

namespace Symbol

/-- Whether the symbol is an enum type. -/
def isEnum (s : Symbol) : Bool :=
  s.kind == .namedType && s.typeKind == some .enumType

/-- Whether the symbol is a method. -/
def isMethod (s : Symbol) : Bool :=
  s.kind == .method

/-- The symbol as an override of `target`, or of a member the host could not resolve. -/
def overriding (s : Symbol) (target : Option SymbolId) : Symbol :=
  { s with isOverride := true, overridden := target }

end Symbol

/-- The structural identity of a symbol: two symbols that name the same declaration have equal
keys. -/
structure SymbolKey where
  qualifiedName : String
  kind : SymbolKind
  parameterCount : Nat
  deriving DecidableEq, Repr, Inhabited

/-- The written form of a key; a method also shows how many parameters it takes. -/
def SymbolKey.render (k : SymbolKey) : String :=
  if k.kind = .method then k.qualifiedName ++ "/" ++ toString k.parameterCount
  else k.qualifiedName

end TreeLint
