/-
TreeLint/Proofs/Fix/NameOf.lean

The `nameof` fix works, and repeating it ends.

A *candidate* is a call of the notifying method whose first argument is a
string literal, whatever parentheses are around it.  Whether an invocation is a
candidate is a matter of syntax, and everything that the rule reports is one.

The fix exchanges one literal.  What an invocation has become is read part by
part (`LiteralSplice`): the parts of a copy are the copies of its parts, except
that `nameof` stands where the literal was.  So a copy is a candidate exactly if
its original is one and the literal was not its argument (`isCandidate_iff`).
The literal is the argument of one invocation only, because the way up from it
leads through parentheses to one argument (`eq_of_argument?_eq`).  Hence every
round of analysing and fixing takes a candidate away, whatever is bound in it.
-/
import TreeLint.Proofs.Analysis.Builtin
import TreeLint.Proofs.Tree.Copies

namespace TreeLint

open Element

/-! ### Parentheses -/

namespace Element

theorem peelFirstNode?_eq (cs : List Element) :
    peelFirstNode? cs = (cs.filter (!·.isToken)).head?.map peelParentheses := by
  induction cs with
  | nil => rfl
  | cons c cs ih =>
    rw [peelFirstNode?, ih, List.filter_cons]
    cases c.isToken <;> rfl

theorem peelParentheses_eq (e : Element) :
    e.peelParentheses = if e.kind = .parenthesizedExpression then
      (e.childNodes.head?.map peelParentheses).getD e else e := by
  cases e with
  | token l t =>
    rw [peelParentheses]
    exact (ite_self _).symm
  | node l cs => rw [peelParentheses, peelFirstNode?_eq]; rfl

/-- Nothing but parentheses is left behind on the way in. -/
theorem exists_lineage_peelParentheses (e : Element) :
    ∃ above, Lineage e e.peelParentheses above ∧
      ∀ z ∈ above, z.kind = .parenthesizedExpression := by
  induction e using Element.induction with
  | token l t => exact ⟨[], .refl _, List.forall_mem_nil _⟩
  | node l cs ih =>
    rw [peelParentheses_eq]
    split
    · rename_i hkind
      rcases hhead : (node l cs).childNodes.head? with - | c
      · exact ⟨[], .refl _, List.forall_mem_nil _⟩
      · have hc : c ∈ cs := mem_children_of_mem_childNodes (List.mem_of_mem_head? hhead)
        obtain ⟨above, hlineage, habove⟩ := ih c hc
        refine ⟨above ++ [node l cs], .child hc hlineage, ?_⟩
        intro z hz
        rcases List.mem_append.mp hz with hz | hz
        · exact habove z hz
        · rw [List.mem_singleton.mp hz]
          exact hkind
    · exact ⟨[], .refl _, List.forall_mem_nil _⟩

end Element

/-! ### Candidates -/

namespace PropertyChanged

variable {t : Tree} {a b p : Element}

/-- The first argument of an invocation, outside its parentheses. -/
def argument? (invocation : Element) : Option Element := do
  let arguments ← invocation.childOfKind? .argumentList
  let first ← arguments.childNodes.find? (·.kind == .argument)
  let expression ← first.childNodes.head?
  return expression.peelParentheses

theorem literalArgument?_eq (invocation : Element) :
    literalArgument? invocation = (argument? invocation).filter NameOfFix.isStringLiteral := by
  simp only [literalArgument?, argument?, Option.bind_eq_bind]
  rcases invocation.childOfKind? .argumentList with - | arguments
  · rfl
  · simp only [Option.bind_some]
    generalize List.find? _ arguments.childNodes = first
    rcases first with - | first
    · rfl
    · simp only [Option.bind_some]
      rcases first.childNodes.head? with - | expression
      · rfl
      · rfl

/-- Whether an element is a call of the notifying method with a string literal. -/
def isCandidate (e : Element) : Bool :=
  e.kind == .invocationExpression && callsNotify e && (literalArgument? e).isSome

/-- The candidates of a tree, in document order. -/
def candidates (t : Tree) : List Element := t.top.preorder.filter isCandidate

/-- The way from an invocation down to its argument leads through parentheses only, once it has
entered the first argument. -/
theorem exists_lineage_argument? (h : argument? a = some p) :
    ∃ parentheses first arguments, Lineage a p (parentheses ++ [first, arguments, a]) ∧
      (∀ z ∈ parentheses, z.kind = .parenthesizedExpression) ∧ first.kind = .argument := by
  simp only [argument?, Option.bind_eq_bind, Option.bind_eq_some_iff] at h
  obtain ⟨arguments, harguments, first, hfirst, expression, hexpression, hp⟩ := h
  obtain rfl : expression.peelParentheses = p := Option.some.inj hp
  obtain ⟨parentheses, hlineage, hparentheses⟩ := exists_lineage_peelParentheses expression
  have h1 := List.mem_of_find?_eq_some harguments
  have h2 := mem_children_of_mem_childNodes (List.mem_of_find?_eq_some hfirst)
  have h3 := mem_children_of_mem_childNodes (List.mem_of_mem_head? hexpression)
  have hall := Lineage.child h1 (.child h2 (.child h3 hlineage))
  rw [List.append_assoc, List.append_assoc] at hall
  exact ⟨parentheses, first, arguments, hall, hparentheses, beq_iff_eq.mp
    (List.find?_some (p := fun e : Element => e.kind == .argument) hfirst)⟩

/-- No two invocations have the same argument. -/
theorem eq_of_argument?_eq (ha : Below t.top a) (hb : Below t.top b) (h : argument? a = some p)
    (h' : argument? b = some p) : a = b := by
  -- the way up from the argument, without the parentheses
  have hup : ∀ {a}, Below t.top a → argument? a = some p → ∃ first arguments rest,
      (t.ancestors p.id).dropWhile (·.kind == .parenthesizedExpression)
        = first :: arguments :: a :: rest := by
    intro a ha h
    obtain ⟨parentheses, first, arguments, hlineage, hparentheses, hfirst⟩ :=
      exists_lineage_argument? h
    obtain ⟨outer, houter⟩ := ha.exists_lineage
    refine ⟨first, arguments, outer, ?_⟩
    rw [Tree.ancestors_eq (ha.trans hlineage.toBelow) (houter.trans hlineage), List.append_assoc,
      List.dropWhile_append_of_pos fun z hz => beq_iff_eq.mpr (hparentheses z hz)]
    exact List.dropWhile_cons_of_neg (by rw [hfirst]; decide)
  obtain ⟨first, arguments, rest, hfirst⟩ := hup ha h
  obtain ⟨first', arguments', rest', hfirst'⟩ := hup hb h'
  rw [hfirst] at hfirst'
  exact (List.cons.inj (List.cons.inj (List.cons.inj hfirst').2).2).1

end PropertyChanged

/-! ### Reading copies -/

/-- The literal `L`, a child of `x`, has given way to the `nameof` expression `N`. -/
structure LiteralSplice (L N x x' : Element) : Prop where
  spliced : Spliced [L] [N] x x'
  literal : L.isToken = false ∧ L.kind = .literalExpression
  nameOf : N.isToken = false ∧ N.kind = .nameOfExpression

/-- What `c` has become: a copy of it, or `nameof` in the place of the literal. -/
def Turned (L N x x' c d : Element) : Prop := Kept [L] [N] x x' c d ∨ (c = L ∧ d = N)

namespace LiteralSplice

open PropertyChanged

variable {L N x x' a b c d : Element} (h : LiteralSplice L N x x')
include h

theorem isToken_eq (hcd : Turned L N x x' c d) : d.isToken = c.isToken := by
  rcases hcd with hcd | ⟨rfl, rfl⟩
  · exact hcd.isToken_eq h.spliced
  · exact h.nameOf.1.trans h.literal.1.symm

theorem kind_beq_eq (hcd : Turned L N x x' c d) {k : Kind} (hk : k ≠ .literalExpression)
    (hk' : k ≠ .nameOfExpression) : (d.kind == k) = (c.kind == k) := by
  rcases hcd with hcd | ⟨rfl, rfl⟩
  · rw [hcd.kind_eq h.spliced]
  · rw [h.literal.2, h.nameOf.2, beq_eq_false_iff_ne.mpr hk.symm, beq_eq_false_iff_ne.mpr hk'.symm]

/-- Only the literal is not copied. -/
theorem kept_of_kind_ne (hcd : Turned L N x x' c d) (hc : c.kind ≠ .literalExpression) :
    Kept [L] [N] x x' c d := by
  rcases hcd with hcd | ⟨rfl, -⟩
  · exact hcd
  · exact absurd h.literal.2 hc

theorem forall₂_children (hab : Kept [L] [N] x x' a b) :
    List.Forall₂ (Turned L N x x') a.children b.children := by
  by_cases ha : a = x
  · subst ha
    obtain ⟨rfl, hx, hx'⟩ := hab.eq_right
    obtain ⟨_, _, _, _, hcs, hcs', hpre, hpost⟩ := Kept.exists_forall₂_children h.spliced hx hx'
    rw [hcs, hcs']
    exact List.rel_append (hpre.imp fun _ _ => .inl)
      (.cons (.inr ⟨rfl, rfl⟩) (hpost.imp fun _ _ => .inl))
  · exact (hab.forall₂_children_of_ne h.spliced ha).imp fun _ _ => .inl

theorem forall₂_childNodes (hab : Kept [L] [N] x x' a b) :
    List.Forall₂ (Turned L N x x') a.childNodes b.childNodes :=
  forall₂_filter (h.forall₂_children hab) fun _ _ hcd => congrArg not (h.isToken_eq hcd)

/-- A child of a kind that no literal has is copied. -/
theorem rel_childOfKind? (hab : Kept [L] [N] x x' a b) {k : Kind} (hk : k ≠ .literalExpression)
    (hk' : k ≠ .nameOfExpression) :
    Option.Rel (Kept [L] [N] x x') (a.childOfKind? k) (b.childOfKind? k) := by
  refine rel_imp (rel_find? (h.forall₂_children hab) fun _ _ hcd => h.kind_beq_eq hcd hk hk') ?_
  rintro c d ⟨hcd, hkind⟩
  exact h.kept_of_kind_ne hcd (beq_iff_eq.mp hkind ▸ hk)

theorem identifierText?_eq (hcd : Turned L N x x' c d) : d.identifierText? = c.identifierText? := by
  have hkind := h.kind_beq_eq hcd (k := .identifierName) (by decide) (by decide)
  rw [identifierText?, identifierText?]
  by_cases hc : c.kind = .identifierName
  · have hkept := h.kept_of_kind_ne hcd (hc ▸ by decide)
    rw [if_pos hc, if_pos ((hkept.kind_eq h.spliced).trans hc), Option.map_eq_bind,
      Option.map_eq_bind]
    exact bind_eq_of_rel (h.rel_childOfKind? hkept (by decide) (by decide)) fun _ _ _ hpq =>
      congrArg some (hpq.tokenText_eq h.spliced)
  · rw [beq_eq_false_iff_ne.mpr hc, beq_eq_false_iff_ne] at hkind
    rw [if_neg hc, if_neg hkind]

theorem callsNotify_eq (hab : Kept [L] [N] x x' a b) : callsNotify b = callsNotify a := by
  rw [callsNotify, callsNotify, bind_eq_of_rel (rel_head? (h.forall₂_childNodes hab))
    fun _ _ _ hcd => h.identifierText?_eq hcd]

theorem turned_peelParentheses (hcd : Turned L N x x' c d) :
    Turned L N x x' c.peelParentheses d.peelParentheses := by
  induction c using Element.induction generalizing d with
  | token l t =>
    have hd : d.isToken = true := h.isToken_eq hcd
    cases d with
    | token l' t' => exact hcd
    | node l' cs' => cases hd
  | node l cs ih =>
    have hkind := h.kind_beq_eq hcd (k := .parenthesizedExpression) (by decide) (by decide)
    rw [peelParentheses_eq, peelParentheses_eq d]
    by_cases hc : (node l cs).kind = .parenthesizedExpression
    · have hkept := h.kept_of_kind_ne hcd (hc ▸ by decide)
      have hhead := rel_head? (h.forall₂_childNodes hkept)
      rw [if_pos hc, if_pos ((hkept.kind_eq h.spliced).trans hc)]
      rcases hp : (node l cs).childNodes.head? with - | p
      · rw [hp] at hhead
        generalize d.childNodes.head? = q at hhead ⊢
        cases hhead
        exact hcd
      · have hmem : p ∈ cs := mem_children_of_mem_childNodes (List.mem_of_mem_head? hp)
        rw [hp] at hhead
        generalize d.childNodes.head? = q at hhead ⊢
        cases hhead with
        | some hpq => exact ih p hmem hpq
    · rw [beq_eq_false_iff_ne.mpr hc, beq_eq_false_iff_ne] at hkind
      rw [if_neg hc, if_neg hkind]
      exact hcd

/-- The argument of a copy is what the argument has become. -/
theorem rel_argument? (hab : Kept [L] [N] x x' a b) :
    Option.Rel (Turned L N x x') (argument? a) (argument? b) := by
  refine rel_bind (h.rel_childOfKind? hab (by decide) (by decide)) fun _ _ harguments => ?_
  refine rel_bind (rel_find? (h.forall₂_childNodes harguments) fun _ _ hcd =>
    h.kind_beq_eq hcd (by decide) (by decide)) ?_
  rintro first first' ⟨hfirst, hkind⟩
  have hkept := h.kept_of_kind_ne hfirst (beq_iff_eq.mp hkind ▸ by decide)
  refine rel_bind (rel_head? (h.forall₂_childNodes hkept)) fun _ _ hexpression => ?_
  exact .some (h.turned_peelParentheses hexpression)

theorem isStringLiteral_eq (hcd : Kept [L] [N] x x' c d) :
    NameOfFix.isStringLiteral d = NameOfFix.isStringLiteral c := by
  have hrel := h.rel_childOfKind? hcd (k := .stringLiteralToken) (by decide) (by decide)
  rw [NameOfFix.isStringLiteral, NameOfFix.isStringLiteral, hcd.kind_eq h.spliced]
  generalize c.childOfKind? .stringLiteralToken = token at hrel ⊢
  generalize d.childOfKind? .stringLiteralToken = token' at hrel ⊢
  cases hrel <;> rfl

/-- A copy is a candidate exactly if its original is one whose argument is not the literal. -/
theorem isCandidate_iff (hab : Kept [L] [N] x x' a b) :
    isCandidate b = true ↔ isCandidate a = true ∧ literalArgument? a ≠ some L := by
  have hrel := h.rel_argument? hab
  have hargument : (literalArgument? b).isSome = true ↔
      (literalArgument? a).isSome = true ∧ literalArgument? a ≠ some L := by
    rw [literalArgument?_eq, literalArgument?_eq]
    generalize argument? a = p at hrel ⊢
    generalize argument? b = q at hrel ⊢
    cases hrel with
    | none => simp
    | @some c d hcd =>
      rcases hcd with hcd | ⟨rfl, rfl⟩
      · have hne : c ≠ L := by
          rintro rfl
          exact not_isOutside_of_mem List.mem_cons_self (.refl c) (hcd.isOutside_left h.spliced)
        rw [Option.filter_some, Option.filter_some, h.isStringLiteral_eq hcd]
        split
        · simp [hne]
        · simp
      · -- `nameof` is no literal
        have hd : NameOfFix.isStringLiteral d = false := by
          rw [NameOfFix.isStringLiteral, h.nameOf.2]
          rfl
        rw [Option.filter_some, Option.filter_some, hd, if_neg Bool.false_ne_true]
        split <;> simp
  rw [isCandidate, isCandidate, hab.kind_eq h.spliced, h.callsNotify_eq hab, Bool.and_eq_true,
    Bool.and_eq_true (a.kind == .invocationExpression && callsNotify a), hargument, and_assoc]

end LiteralSplice

/-! ### The fix -/

namespace NameOfFix

open PropertyChanged

variable {t t' t'' : Tree} {d : Diagnostic} {u : AnalysisUnit}

/-- The fix of a diagnostic that flags a literal exchanges it, and the bytes of its span. -/
theorem exists_fix_eq {x L token : Element} {name : String} (hrule : d.ruleId = "SC0003")
    (hpayload : d.payload = .nameOfCandidate name) (hx : Below t.top x) (hL : L ∈ x.children)
    (hkind : L.kind = .literalExpression) (htoken : L.childOfKind? .stringLiteralToken = some token)
    (htext : token.tokenText ≠ "") (hspan : d.span = L.span) :
    ∃ t' x' N, provider.fix t d = .ok t' ∧
      t'.text.toByteArray = TextEdit.applyAll t.text [⟨d.span, "nameof(" ++ name ++ ")"⟩] ∧
      Tree.Splice [L] [N] x x' t t' ∧ N.shape = (Shape.nameOf name).withTrivia L.leadingTrivia := by
  have hbelow : Below t.top L := hx.trans (.of_child hL)
  have hplaced := t.placed_top.below hbelow
  have hmem : token ∈ L.children := List.mem_of_find?_eq_some htoken
  obtain ⟨hisToken, htokenText⟩ := isToken_of_tokenText_ne htext
  -- the literal itself is found at its span
  obtain ⟨n, hfound, hn, hnnode, hnspan⟩ := t.exists_nodeAt?_eq hbelow
    (hplaced.visible_of_childOfKind? htoken htext) (isToken_of_mem_children hmem)
  obtain rfl : n = L := hplaced.eq_of_span_eq hmem hisToken
    ((hplaced.child hmem).visible_iff.mpr htokenText) hn hnnode hnspan
  have hpeel : n.peelParentheses = n := by
    rw [peelParentheses_eq, if_neg (by rw [hkind]; decide)]
  have hliteral : isStringLiteral n.peelParentheses = true := by
    rw [hpeel, isStringLiteral, hkind, htoken]
    rfl
  obtain ⟨pre, post, hcs⟩ := List.append_of_mem hL
  obtain ⟨replacement, hreplacement, hrshape⟩ := Tree.exists_ofSteps_nameOf name
  obtain ⟨t', x', N, ht', hsplice, hN⟩ := Tree.exists_edit_replace_splice hx hcs replacement
  rw [← hspan] at hfound
  rw [← hpeel] at ht'
  have hcorrect := correct_eq_ok hpayload hfound hliteral hreplacement ht'
  -- the text is known from the account of the fix as a text edit
  obtain ⟨T, r, hT, hamended⟩ := (Amended.refl t).exists_nameOf_eq hbelow hkind htoken htext hspan
    (List.forall_mem_nil _) hpayload
  obtain rfl : t' = T := Except.ok.inj (hcorrect.symm.trans hT)
  refine ⟨t', x', N, ?_, hamended.toByteArray_text, hsplice, hrshape ▸ hN⟩
  rw [FixProvider.fix, hrule, if_pos (by decide)]
  exact hcorrect

/-- What the fix of a diagnostic has come to: the literal that is the argument of an invocation has
given way to `nameof`, in the text and in the tree, and of the candidates the invocation and those
in the literal are gone. -/
structure Settles (u : AnalysisUnit) (d : Diagnostic) (name : String)
    (invocation literal nameOf : Element) (t' : Tree) : Prop where
  payload_eq : d.payload = .nameOfCandidate name
  invocation_below : Below u.tree.top invocation
  mem_check : d ∈ check ⟨u, invocation, false⟩
  literal_eq : literalArgument? invocation = some literal
  span_eq : d.span = literal.span
  fix_eq : provider.fix u.tree d = .ok t'
  text_eq : t'.text.toByteArray
    = u.tree.text.toByteArray.extract 0 d.span.start
      ++ (("nameof(" ++ name ++ ")").toByteArray
        ++ u.tree.text.toByteArray.extract d.span.stop u.tree.text.toByteArray.size)
  nameOf_below : Below t'.top nameOf
  nameOf_shape : nameOf.shape = (Shape.nameOf name).withTrivia literal.leadingTrivia
  copied : List.Forall₂ (fun a b => b.kind = a.kind ∧ (¬ Below a literal → b.shape = a.shape))
    (u.tree.top.outside [literal]) (t'.top.outside [nameOf])
  candidate : invocation ∈ candidates u.tree
  candidates_eq : List.Forall₂ (fun a b => (a, b) ∈ copies [literal] [nameOf] u.tree.top t'.top)
    ((candidates u.tree).filter fun a => a.id != invocation.id && isOutside [literal] a)
    (candidates t')

/-- What is in a `nameof` expression is no candidate. -/
theorem isCandidate_of_below {N z : Element} {name trivia : String}
    (hN : N.shape = (Shape.nameOf name).withTrivia trivia) (hz : Below N z) :
    isCandidate z = false := by
  have hmem := Shape.kind_mem_kinds hz
  rw [hN, Shape.kinds_withTrivia, Shape.kinds_nameOf] at hmem
  have hkind : z.kind ≠ .invocationExpression := by
    intro hkind
    rw [hkind] at hmem
    exact absurd hmem (by decide)
  rw [isCandidate, beq_eq_false_iff_ne.mpr hkind]
  rfl

/-- The candidates after an exchange of literals. -/
theorem forall₂_candidates {x x' L N invocation : Element} {name : String}
    (hsplice : Tree.Splice [L] [N] x x' t t') (hL : L.isToken = false)
    (hkind : L.kind = .literalExpression)
    (hN : N.shape = (Shape.nameOf name).withTrivia L.leadingTrivia)
    (hbelow : Below t.top invocation) (hliteral : literalArgument? invocation = some L) :
    List.Forall₂ (fun a b => (a, b) ∈ copies [L] [N] t.top t'.top)
      ((candidates t).filter fun a => a.id != invocation.id && isOutside [L] a)
      (candidates t') := by
  have h : LiteralSplice L N x x' :=
    ⟨hsplice.spliced, ⟨hL, hkind⟩, (of_shape_eq_node hN).1, (of_shape_eq_node hN).2.1⟩
  have hafter : (t'.top.outside [N]).filter isCandidate = candidates t' :=
    hsplice.filter_outside fun s hs z hz =>
      isCandidate_of_below (List.mem_singleton.mp hs ▸ hN) hz
  have hbefore : ((candidates t).filter fun a => a.id != invocation.id && isOutside [L] a)
      = (t.top.outside [L]).filter fun a => isCandidate a && a.id != invocation.id := by
    rw [candidates, outside, List.filter_filter, List.filter_filter]
    refine List.filter_congr fun z _ => ?_
    cases isCandidate z <;> cases isOutside [L] z <;> simp
  rw [← hafter, hbefore]
  refine forall₂_filter hsplice.forall₂_copies ?_
  intro a b hab
  have ha : Below t.top a :=
    mem_preorder_iff.mp (List.mem_filter.mp (List.of_mem_zip hab).1).1
  have hinvocation : literalArgument? a = some L ↔ a.id = invocation.id := by
    constructor
    · intro haL
      rw [literalArgument?_eq, Option.filter_eq_some_iff] at haL hliteral
      rw [eq_of_argument?_eq ha hbelow haL.1 hliteral.1]
    · intro hid
      rw [Tree.eq_of_id_eq ha hbelow hid]
      exact hliteral
  rw [Bool.eq_iff_iff, h.isCandidate_iff (hsplice.kept_of_mem_copies hab), Ne, hinvocation,
    Bool.and_eq_true, bne_iff_ne]

theorem exists_settles (hd : d ∈ PropertyChanged.analyzer.reports u) :
    ∃ name invocation literal nameOf t', Settles u d name invocation literal nameOf t' := by
  rw [Analyzer.reports_eq rfl rfl rfl] at hd
  obtain ⟨invocation, hinvocation, hd⟩ := List.mem_flatMap.mp hd
  obtain ⟨hmem, hkind⟩ := List.mem_filter.mp hinvocation
  have hbelow := mem_preorder_iff.mp hmem
  have hcheck : d ∈ check ⟨u, invocation, false⟩ := hd
  obtain ⟨literal, value, name, hcalls, hliteral, hvalue, rfl⟩ := exists_of_mem_check hd
  obtain ⟨hlbelow, hlkind⟩ := of_literalArgument?_eq_some hliteral
  obtain ⟨token, htoken, htext⟩ := of_literalValue?_eq_some hvalue
  have hne : literal ≠ invocation := by
    rintro rfl
    rw [hlkind] at hkind
    cases hkind
  obtain ⟨x, hx, hL⟩ := hlbelow.exists_parent hne
  obtain ⟨t', x', N, hfix, htext', hsplice, hN⟩ := exists_fix_eq
    (d := u.diagnostic rule literal.span (.nameOfCandidate name) [name]) rfl rfl (hbelow.trans hx)
    hL hlkind htoken htext rfl
  have hlnode := isToken_of_mem_children (List.mem_of_find?_eq_some htoken)
  refine ⟨name, invocation, literal, N, t', rfl, hbelow, hcheck, hliteral, rfl, hfix, ?_, ?_, hN,
    hsplice.forall₂_outside.imp fun a b hab => ⟨hab.1, fun ha => hab.2 fun hax =>
      ha (hax.trans (.of_child hL))⟩, ?_,
    forall₂_candidates hsplice hlnode hlkind hN hbelow hliteral⟩
  · rw [htext', TextEdit.applyAll, List.mergeSort_singleton]
    rfl
  · exact hsplice.below_of_mem List.mem_cons_self
  · refine List.mem_filter.mpr ⟨hmem, ?_⟩
    rw [isCandidate, hkind, hcalls, hliteral]
    rfl

/-- The fix takes a candidate away. -/
theorem Settles.length_candidates_lt {name : String} {invocation literal nameOf : Element}
    (h : Settles u d name invocation literal nameOf t') :
    (candidates t').length < (candidates u.tree).length := by
  rw [← h.candidates_eq.length_eq, List.length_filter_lt_length_iff_exists]
  exact ⟨invocation, h.candidate, by simp⟩

/-! ### Rounds -/

/-- One round of analysing and fixing: under some symbols and bindings the rule reports a diagnostic
on the tree, and its fix gives the next tree. -/
def Round (t t' : Tree) : Prop :=
  ∃ u d, u.tree = t ∧ d ∈ PropertyChanged.analyzer.reports u ∧ provider.fix t d = .ok t'

/-- Several rounds, one after the other. -/
inductive Rounds : Nat → Tree → Tree → Prop
  | none (t : Tree) : Rounds 0 t t
  | next {n : Nat} {t t' t'' : Tree} : Round t t' → Rounds n t' t'' → Rounds (n + 1) t t''

theorem Round.length_candidates_lt (h : Round t t') :
    (candidates t').length < (candidates t).length := by
  obtain ⟨u, d, rfl, hd, hfix⟩ := h
  obtain ⟨name, invocation, literal, nameOf, T, hsettles⟩ := exists_settles hd
  obtain rfl : t' = T := Except.ok.inj (hfix.symm.trans hsettles.fix_eq)
  exact hsettles.length_candidates_lt

theorem Rounds.add_length_candidates_le {n : Nat} (h : Rounds n t t') :
    n + (candidates t').length ≤ (candidates t).length := by
  induction h with
  | none t => rw [Nat.zero_add]
  | next hround _ ih =>
    have hlt := hround.length_candidates_lt
    omega

/-- **Fixing every literal ends.**  The fix of whatever the rule reports works: it splices `nameof`
into the bytes of the span, and the candidates stay, in document order, without the reported
invocation and those in the literal.  So there are never more rounds of analysing and fixing than
candidates, whatever is bound in each of them. -/
theorem settles_reports :
    (∀ u : AnalysisUnit, ∀ d ∈ PropertyChanged.analyzer.reports u,
      ∃ name invocation literal nameOf t', Settles u d name invocation literal nameOf t') ∧
    ∀ n t t', Rounds n t t' → n + (candidates t').length ≤ (candidates t).length :=
  ⟨fun _ _ hd => exists_settles hd, fun _ _ _ h => h.add_length_candidates_le⟩

/-- A class that calls `OnPropertyChanged(("hue"))`. -/
def parenthesizedCall : Tree :=
  ⟨#[⟨.classDeclaration, [1], none⟩, ⟨.invocationExpression, [2, 3], none⟩,
      ⟨.identifierName, [4], none⟩, ⟨.argumentList, [5, 6, 7], none⟩,
      ⟨.identifierToken, [], some ⟨"OnPropertyChanged", " "⟩⟩,
      ⟨.openParenToken, [], some ⟨"(", ""⟩⟩, ⟨.argument, [8], none⟩,
      ⟨.closeParenToken, [], some ⟨")", ""⟩⟩, ⟨.parenthesizedExpression, [9, 10, 11], none⟩,
      ⟨.openParenToken, [], some ⟨"(", ""⟩⟩, ⟨.literalExpression, [12], none⟩,
      ⟨.closeParenToken, [], some ⟨")", ""⟩⟩, ⟨.stringLiteralToken, [], some ⟨"\"hue\"", ""⟩⟩],
    0, #[none, some 0, some 1, some 1, some 2, some 3, some 3, some 3, some 6, some 8, some 8,
      some 8, some 10], _, rfl, rfl⟩

/-- The class, with a property `Hue`. -/
def parenthesizedUnit : AnalysisUnit where
  source := { path := ⟨"a.cs"⟩, tree := parenthesizedCall
              bindings := { declared := ⟨[(0, 0)], by simp⟩ } }
  symbols := (SymbolTable.empty.insert
    { name := "Car", kind := .namedType, typeKind := some .classType }).insert
    { name := "Hue", kind := .property, container := some 0 }
  generated := false

theorem settles_reports_parenthesizedCall :
    ∃ d ∈ PropertyChanged.analyzer.reports parenthesizedUnit, ∃ t',
      provider.fix parenthesizedCall d = .ok t' ∧
      t'.text = " OnPropertyChanged((nameof(Hue)))" ∧ candidates t' = [] := by
  have hreports : (PropertyChanged.analyzer.reports parenthesizedUnit).map
      (fun d => (d.payload, d.span)) = [(.nameOfCandidate "Hue", ⟨20, 25⟩)] := by
    decide +kernel
  obtain ⟨d, hd, hpair⟩ := List.map_eq_singleton_iff.mp hreports
  obtain ⟨hpayload, hspan⟩ := Prod.mk.inj hpair
  have hmem : d ∈ PropertyChanged.analyzer.reports parenthesizedUnit := hd ▸ List.mem_cons_self
  obtain ⟨name, invocation, literal, nameOf, t', h⟩ :=
    settles_reports.1 parenthesizedUnit d hmem
  obtain rfl : "Hue" = name := by
    have hname := hpayload.symm.trans h.payload_eq
    injection hname
  refine ⟨d, hmem, t', h.fix_eq, ?_, ?_⟩
  · rw [← String.toByteArray_inj, h.text_eq, hspan]
    rfl
  · have hrounds := settles_reports.2 1 parenthesizedCall t'
      (.next ⟨parenthesizedUnit, d, rfl, hmem, h.fix_eq⟩ (.none t'))
    have hone : (candidates parenthesizedCall).length = 1 := rfl
    exact List.length_eq_zero_iff.mp (by omega)

end NameOfFix

end TreeLint
