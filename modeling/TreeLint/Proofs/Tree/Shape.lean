/-
TreeLint/Proofs/Tree/Shape.lean

Shapes: ordered trees of kinds and tokens, without slot numbers and spans.
A shape is what two trees share when they differ only in how their slots are
numbered, so statements about edited trees are statements about shapes.

`Shape.steps` lists the build steps that produce a shape.  `withTrivia`
exchanges the trivia of the first token, and does nothing to a shape without
tokens.
-/
import TreeLint.Tree.Builder

namespace TreeLint

/-- An ordered tree of kinds and tokens. -/
inductive Shape where
  | token (kind : Kind) (token : Token)
  | node (kind : Kind) (children : List Shape)
  deriving Repr, Inhabited

mutual

/-- The shape of an element. -/
def Element.shape : Element → Shape
  | .token l t => .token l.kind t
  | .node l cs => .node l.kind (Element.shapeAll cs)

/-- The shapes of several elements. -/
def Element.shapeAll : List Element → List Shape
  | [] => []
  | c :: cs => c.shape :: Element.shapeAll cs

end

namespace Shape

/-- What holds of tokens, and of a node whenever it holds of all its children, holds of every
shape. -/
@[elab_as_elim]
theorem induction {P : Shape → Prop} (token : ∀ k t, P (.token k t))
    (node : ∀ k ss, (∀ s ∈ ss, P s) → P (.node k ss)) (s : Shape) : P s := by
  refine @Shape.rec P (fun ss => ∀ s ∈ ss, P s) token node ?_ ?_ s
  · intro s hs
    cases hs
  · intro s ss hs hss x hx
    rcases List.mem_cons.mp hx with rfl | hx
    · exact hs
    · exact hss x hx

mutual

/-- The build steps of a shape. -/
def steps : Shape → List BuildStep
  | token kind t => [.queueTrivia t.trivia, .addToken kind t.text]
  | node kind ss => .openNode kind :: (stepsAll ss ++ [.closeNode])

/-- The build steps of several shapes. -/
def stepsAll : List Shape → List BuildStep
  | [] => []
  | s :: ss => s.steps ++ stepsAll ss

end

theorem stepsAll_append (ss ts : List Shape) :
    stepsAll (ss ++ ts) = stepsAll ss ++ stepsAll ts := by
  induction ss with
  | nil => rfl
  | cons s ss ih => rw [List.cons_append, stepsAll, stepsAll, ih, List.append_assoc]

mutual

/-- The rendered text of a shape, trivia included. -/
def fullText : Shape → String
  | token _ t => t.fullText
  | node _ ss => fullTextAll ss

/-- The rendered text of several shapes. -/
def fullTextAll : List Shape → String
  | [] => ""
  | s :: ss => s.fullText ++ fullTextAll ss

end

@[simp] theorem fullText_token (k : Kind) (t : Token) :
    (token k t).fullText = t.trivia ++ t.text := by
  rw [fullText, Token.fullText]

@[simp] theorem fullText_node (k : Kind) (ss : List Shape) :
    (node k ss).fullText = fullTextAll ss := by
  rw [fullText]

theorem fullTextAll_append (ss ts : List Shape) :
    fullTextAll (ss ++ ts) = fullTextAll ss ++ fullTextAll ts := by
  induction ss with
  | nil => simp [fullTextAll]
  | cons s ss ih => rw [List.cons_append, fullTextAll, fullTextAll, ih, String.append_assoc]

/-! ### The first token -/

mutual

/-- The content of the first token of a shape. -/
def leadingToken? : Shape → Option Token
  | token _ t => some t
  | node _ ss => leadingTokenOf? ss

/-- The content of the first token of several shapes. -/
def leadingTokenOf? : List Shape → Option Token
  | [] => none
  | s :: ss => s.leadingToken? <|> leadingTokenOf? ss

end

theorem leadingTokenOf?_eq (ss : List Shape) :
    leadingTokenOf? ss = ss.findSome? leadingToken? := by
  induction ss with
  | nil => rfl
  | cons s ss ih =>
    rw [leadingTokenOf?, ih, List.findSome?_cons]
    cases s.leadingToken? <;> rfl

@[simp] theorem leadingToken?_token (k : Kind) (t : Token) :
    (token k t).leadingToken? = some t := by
  rw [leadingToken?]

@[simp] theorem leadingToken?_node (k : Kind) (ss : List Shape) :
    (node k ss).leadingToken? = ss.findSome? leadingToken? := by
  rw [leadingToken?, leadingTokenOf?_eq]

/-- Whether the shape has a token. -/
def hasToken (s : Shape) : Bool := s.leadingToken?.isSome

/-- The trivia before the first token. -/
def leadingTrivia (s : Shape) : String := (s.leadingToken?.map (·.trivia)).getD ""

mutual

/-- The shape with the trivia of its first token exchanged. -/
def withTrivia (trivia : String) : Shape → Shape
  | token kind t => token kind { t with trivia }
  | node kind ss => node kind (withTriviaIn trivia ss)

/-- Several shapes with the trivia of their first token exchanged. -/
def withTriviaIn (trivia : String) : List Shape → List Shape
  | [] => []
  | s :: ss =>
    if s.hasToken then s.withTrivia trivia :: ss else s :: withTriviaIn trivia ss

end

@[simp] theorem hasToken_token (k : Kind) (t : Token) : (token k t).hasToken = true := by
  rw [hasToken, leadingToken?_token]
  rfl

@[simp] theorem hasToken_node (k : Kind) (ss : List Shape) :
    (node k ss).hasToken = ss.any hasToken := by
  rw [hasToken, leadingToken?_node]
  induction ss with
  | nil => rfl
  | cons s ss ih =>
    rw [List.findSome?_cons, List.any_cons, ← ih, hasToken]
    cases s.leadingToken? <;> rfl

/-- A shape without tokens has no trivia to exchange. -/
theorem withTrivia_of_not_hasToken {s : Shape} (trivia : String) (h : s.hasToken = false) :
    s.withTrivia trivia = s := by
  induction s using Shape.induction with
  | token k t => simp at h
  | node k ss ih =>
    rw [hasToken_node, List.any_eq_false] at h
    rw [withTrivia]
    congr 1
    induction ss with
    | nil => rfl
    | cons s ss ihss =>
      rw [withTriviaIn, if_neg (h s List.mem_cons_self),
        ihss (fun r hr => ih r (List.mem_cons_of_mem s hr))
          (fun r hr => h r (List.mem_cons_of_mem s hr))]

end Shape

end TreeLint
