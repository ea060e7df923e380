/-
TreeLint/Tree/Element.lean

Elements: the ordered trees that analyses walk.  An element is a token,
which carries text with the trivia (whitespace and comments) before it, or
an interior node with its children in document order.  Every element knows
the slot it came from, its kind, and two spans: `full` covers the whole
rendering, `span` leaves out the trivia of the first token.

Every walk in this module is a structural recursion on the tree.  `place`
assigns the spans of a subtree rendered at a given offset; nothing else
computes spans.
-/
import TreeLint.Span
import TreeLint.Tree.Kind

namespace TreeLint

/-- The number of an element's slot in its tree.  Such numbers are kept in 32 bits, and one that is
read fits in them; here they have no bound.  What is proved of a table of slots is thus meant of
tables with at most `2 ^ 32` of them, whose numbers are all different in 32 bits. -/
abbrev NodeId := Nat

/-- The text of a token and the trivia that stands before it. -/
structure Token where
  text : String
  trivia : String := ""
  deriving DecidableEq, Repr, Inhabited

namespace Token

/-- The token as it is rendered. -/
def fullText (t : Token) : String :=
  t.trivia ++ t.text

/-- The number of bytes the token renders to. -/
def width (t : Token) : Nat :=
  t.trivia.utf8ByteSize + t.text.utf8ByteSize

end Token

/-- What every element carries. -/
structure Label where
  id : NodeId
  kind : Kind
  span : Span := ⟨0, 0⟩
  full : Span := ⟨0, 0⟩
  deriving DecidableEq, Repr, Inhabited

/-- A token, or a node with its children in document order. -/
inductive Element where
  | token (label : Label) (token : Token)
  | node (label : Label) (children : List Element)
  deriving Repr, Inhabited

namespace Element

/-! ### Parts of an element -/

/-- What the element carries, whichever it is. -/
def label : Element → Label
  | token l _ => l
  | node l _ => l

/-- The slot the element came from. -/
def id (e : Element) : NodeId := e.label.id

/-- The kind of the element. -/
def kind (e : Element) : Kind := e.label.kind

/-- The bytes of the element without the trivia of its first token. -/
def span (e : Element) : Span := e.label.span

/-- The bytes of the element. -/
def full (e : Element) : Span := e.label.full

/-- The token, if the element is one. -/
def token? : Element → Option Token
  | token _ t => some t
  | node _ _ => none

/-- Whether the element is a token, whatever its kind says. -/
def isToken (e : Element) : Bool := e.token?.isSome

/-- The direct children, tokens included. -/
def children : Element → List Element
  | token _ _ => []
  | node _ cs => cs

/-- The direct children that are nodes. -/
def childNodes (e : Element) : List Element :=
  e.children.filter (!·.isToken)

/-- The first direct child of a kind. -/
def childOfKind? (e : Element) (kind : Kind) : Option Element :=
  e.children.find? (·.kind == kind)

/-- Whether a token of the given kind is a direct child. -/
def hasModifier (e : Element) (kind : Kind) : Bool :=
  e.children.any fun c => c.isToken && c.kind == kind

/-- The text of a token; a node has none of its own. -/
def tokenText (e : Element) : String :=
  (e.token?.map (·.text)).getD ""

/-! ### Walks -/

mutual

/-- The element and everything below it, each before its children. -/
def preorder : Element → List Element
  | e@(token _ _) => [e]
  | e@(node _ cs) => e :: preorderAll cs

/-- The walks of several elements, one after the other. -/
def preorderAll : List Element → List Element
  | [] => []
  | c :: cs => c.preorder ++ preorderAll cs

end

mutual

/-- The first token in document order. -/
def firstToken? : Element → Option Element
  | e@(token _ _) => some e
  | node _ cs => firstTokenOf? cs

/-- The first token of several elements. -/
def firstTokenOf? : List Element → Option Element
  | [] => none
  | c :: cs => c.firstToken? <|> firstTokenOf? cs

end

mutual

/-- The token at the end of the chain of last children; none when the chain ends in a node
without children. -/
def lastToken? : Element → Option Element
  | e@(token _ _) => some e
  | node _ cs => lastTokenOf? cs

/-- The token that ends the last of several elements. -/
def lastTokenOf? : List Element → Option Element
  | [] => none
  | [c] => c.lastToken?
  | _ :: c :: cs => lastTokenOf? (c :: cs)

end

mutual

/-- The element of a given slot, at or below this one. -/
def find? (id : NodeId) : Element → Option Element
  | e@(token l _) => if l.id = id then some e else none
  | e@(node l cs) => if l.id = id then some e else findIn? id cs

/-- The element of a given slot, at or below one of several. -/
def findIn? (id : NodeId) : List Element → Option Element
  | [] => none
  | c :: cs => c.find? id <|> findIn? id cs

end

/-- The trivia before the first token. -/
def leadingTrivia (e : Element) : String :=
  ((e.firstToken?.bind token?).map (·.trivia)).getD ""

mutual

/-- The rendered text, trivia included. -/
def fullText : Element → String
  | token _ t => t.fullText
  | node _ cs => fullTextAll cs

/-- The rendered text of several elements. -/
def fullTextAll : List Element → String
  | [] => ""
  | c :: cs => c.fullText ++ fullTextAll cs

end

/-- The rendered text without the trivia of the first token. -/
def text (e : Element) : String :=
  String.ofList (e.fullText.toList.drop e.leadingTrivia.toList.length)

/-! ### Layout -/

mutual

/-- The number of bytes an element renders to. -/
def width : Element → Nat
  | token _ t => t.width
  | node _ cs => widthAll cs

/-- The number of bytes several elements render to. -/
def widthAll : List Element → Nat
  | [] => 0
  | c :: cs => c.width + widthAll cs

end

/-- The span of an element that takes `full`, given the trivia of its first token; an element
without tokens has the empty span at its end. -/
def trimmed (full : Span) : Option Token → Span
  | some t => ⟨full.start + t.trivia.utf8ByteSize, full.stop⟩
  | none => ⟨full.stop, full.stop⟩

mutual

/-- The element with its spans, rendered from byte `start` on. -/
def place (start : Nat) : Element → Element
  | token l t =>
    let full : Span := ⟨start, start + t.width⟩
    token { l with span := trimmed full (some t), full := full } t
  | node l cs =>
    let full : Span := ⟨start, start + widthAll cs⟩
    node { l with span := trimmed full ((firstTokenOf? cs).bind token?), full := full }
      (placeAll start cs)

/-- Several elements with their spans, rendered one after the other. -/
def placeAll (start : Nat) : List Element → List Element
  | [] => []
  | c :: cs => c.place start :: placeAll (start + c.width) cs

end

/-! ### Lookup by span -/

mutual

/-- The innermost node with exactly this span on the way down from the element, where each step
goes to the first child node whose span contains it. -/
def nodeAt? (span : Span) : Element → Option Element
  | token _ _ => none
  | e@(node l cs) => nodeAtIn? span cs <|> if l.span = span then some e else none

/-- The same, on the way down from the first of several elements that is a node and contains the
span. -/
def nodeAtIn? (span : Span) : List Element → Option Element
  | [] => none
  | c :: cs => if !c.isToken && c.span.contains span then c.nodeAt? span else nodeAtIn? span cs

end

/-- The written form for messages, such as `Block@3..7`. -/
def render (e : Element) : String :=
  e.kind.name ++ "@" ++ e.span.render

end Element

end TreeLint
