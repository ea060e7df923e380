/-
TreeLint/Proofs/Text/Literal.lean

What a literal is written as can be read again.

A regular literal is written character by character, and read character by
character: whatever stands behind the written form of a character is left when
that character has been read (`decodeBody?_escape_append`).  A backslash is
always the first of two characters, so none is left over at the end, and the
closing quote is the one that was added last, whatever the value ends in.

The verbatim form doubles the quotes and keeps everything else
(`undouble_double_append`).

The token of a literal is the first child of the node opened for it, so its slot
is the next but one of the builder (`Builder.getElem?_slots_openNode_addToken`).
-/
import TreeLint.Proofs.Tree.Builds
import TreeLint.Tree.Phrase

namespace TreeLint.Text.Literal

/-! ### The regular form -/

/-- A character that needs no escape is read as it is. -/
theorem decodeBody?_cons_of_ne {c : Char} (hc : c ≠ '\\') (rest : List Char) :
    decodeBody? (c :: rest) = (decodeBody? rest).map (c :: ·) := by
  rw [decodeBody?]
  · rintro rfl
    exact absurd rfl hc
  · rintro _ _ rfl
    exact absurd rfl hc

/-- The written form of a character is read as that character. -/
theorem decodeBody?_escape_append (c : Char) (rest : List Char) :
    decodeBody? (escape c ++ rest) = (decodeBody? rest).map (c :: ·) := by
  by_cases hquote : c = '"'
  · subst hquote
    rw [escape, List.cons_append, List.cons_append, List.nil_append, decodeBody?]
    rfl
  by_cases hbackslash : c = '\\'
  · subst hbackslash
    rw [escape, List.cons_append, List.cons_append, List.nil_append, decodeBody?]
    rfl
  by_cases hfeed : c = '\n'
  · subst hfeed
    rw [escape, List.cons_append, List.cons_append, List.nil_append, decodeBody?]
    rfl
  rw [escape, List.singleton_append, decodeBody?_cons_of_ne hbackslash]
  · exact hquote
  · exact hbackslash
  · exact hfeed

theorem decodeBody?_flatMap_escape (value : List Char) :
    decodeBody? (value.flatMap escape) = some value := by
  induction value with
  | nil => rw [List.flatMap_nil, decodeBody?]
  | cons c value ih => rw [List.flatMap_cons, decodeBody?_escape_append, ih, Option.map_some]

/-- Taking off the closing quote undoes putting it there. -/
theorem beforeQuote?_append_quote (body : List Char) :
    beforeQuote? (body ++ ['"']) = some body := by
  rw [beforeQuote?, List.getLast?_concat, if_pos rfl, List.dropLast_concat]

theorem decode?_encode (value : String) : decode? (encode value) = some value := by
  rw [decode?, encode, String.toList_ofList]
  simp only [beforeQuote?_append_quote, Option.bind_some, decodeBody?_flatMap_escape,
    Option.map_some, String.ofList_toList]

/-! ### The verbatim form -/

/-- The written form of one character of a verbatim literal. -/
def double (c : Char) : List Char := if c = '"' then ['"', '"'] else [c]

/-- The verbatim literal that denotes `value`. -/
def verbatim (value : String) : String :=
  String.ofList ('@' :: '"' :: (value.toList.flatMap double ++ ['"']))

/-- A doubled quote is read as one, and everything else as it is. -/
theorem undouble_double_append (c : Char) (rest : List Char) :
    undouble (double c ++ rest) = c :: undouble rest := by
  rw [double]
  split
  · rename_i hc
    subst hc
    rw [List.cons_append, List.singleton_append, undouble]
  · rename_i hc
    rw [List.singleton_append, undouble]
    rintro _ rfl
    exact absurd rfl hc

theorem undouble_flatMap_double (value : List Char) : undouble (value.flatMap double) = value := by
  induction value with
  | nil => rw [List.flatMap_nil, undouble]
  | cons c value ih => rw [List.flatMap_cons, undouble_double_append, ih]

theorem decode?_verbatim (value : String) : decode? (verbatim value) = some value := by
  rw [decode?, verbatim, String.toList_ofList]
  simp only [beforeQuote?_append_quote, Option.map_some, undouble_flatMap_double,
    String.ofList_toList]

end TreeLint.Text.Literal

/-! ### The literals of a build -/

namespace TreeLint.Builder

variable (b : Builder)

@[simp] theorem size_push (slot : Slot) : (b.push slot).size = b.size + 1 := by
  rw [push]
  split
  · simp [size]
  · split <;> simp [size, fail]

/-- The slot of a token that is the first child of a node just opened. -/
theorem getElem?_slots_openNode_addToken (k k' : Kind) (text : String) :
    ((b.step (.openNode k)).step (.addToken k' text)).slots[b.size + 1]?
      = some { kind := k', token := some ⟨text, b.pending⟩ } := by
  have hsize : (b.step (.openNode k)).size = b.size + 1 := b.size_push _
  have hpending : (b.step (.openNode k)).pending = b.pending := b.pending_push _
  have hopened : (b.step (.openNode k)).openNodes = b.size :: b.openNodes := rfl
  generalize b.step (.openNode k) = b' at hsize hpending hopened
  have hparent : b.size < b'.size := by rw [hsize]; exact Nat.lt_succ_self _
  rw [step]
  show ((b'.push _).slots)[_]? = _
  rw [push_of_open hopened hparent, ← hsize, hpending]
  show (_ ++ #[_])[b'.slots.size]? = _
  rw [Array.getElem?_append_right (Array.size_modify.le), Array.size_modify, Nat.sub_self]
  rfl

end TreeLint.Builder

namespace TreeLint.Text.Literal

/-- **Literals round-trip.**  Wherever a literal is built, its token denotes the value it was built
from; and the verbatim form of a value denotes the value. -/
theorem decode?_literals (value : String) :
    (∀ b : Builder, ∃ text, decode? text = some value ∧
      (b.run (Phrase.stringLiteral value)).slots[b.size + 1]?
        = some { kind := .stringLiteralToken, token := some ⟨text, b.pending⟩ }) ∧
    (∃ t, Tree.ofSteps (Phrase.stringLiteral value) = .ok t ∧ decode? t.text = some value) ∧
    decode? (verbatim value) = some value := by
  refine ⟨fun b => ⟨encode value, decode?_encode value, ?_⟩, ?_, decode?_verbatim value⟩
  · exact b.getElem?_slots_openNode_addToken .literalExpression .stringLiteralToken (encode value)
  · let s : Shape := .node .literalExpression [.token .stringLiteralToken ⟨encode value, ""⟩]
    obtain ⟨t, ht, hshape⟩ := Tree.exists_ofSteps_steps s
    refine ⟨t, ?_, ?_⟩
    · have hsteps : s.steps = [.openNode .literalExpression, .queueTrivia "",
          .addToken .stringLiteralToken (encode value), .closeNode] := rfl
      rw [← ht, Tree.ofSteps, Tree.ofSteps, hsteps, Phrase.stringLiteral, Phrase.node]
      simp only [List.singleton_append, Builder.run_cons, Builder.step_queueTrivia_empty]
    · rw [Tree.text, ← Element.fullText_shape, hshape]
      simp [s, Shape.fullTextAll, decode?_encode]

end TreeLint.Text.Literal
