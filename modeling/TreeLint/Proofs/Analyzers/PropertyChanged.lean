/-
TreeLint/Proofs/Analyzers/PropertyChanged.lean

Which calls could use `nameof`, and for which property.

A call *notifies* with a literal if it calls `OnPropertyChanged` by its simple name,
its first argument is the literal, whatever parentheses are around it, the literal
has a value, and the nearest class around the call declares a symbol (`Notifies`).
If that class has properties whose names are the value up to letter case, the one
declared first is meant (`IsMeant`).

A literal is the argument of one call only, and no two literals with a value have
the same span, so no span is reported twice (`eq_of_span_eq`).

The property that is meant is named exactly as the literal says if and only if no
property that is declared before all such ones has the same name up to letter case
(`IsMeant.name_eq_iff`).  So the name can get lost although there is a property
with that name.
-/
import TreeLint.Proofs.Analysis.Verdicts
import TreeLint.Proofs.Fix.NameOf

namespace TreeLint

open Element

namespace PropertyChanged

/-! ### Calls that notify -/

/-- What is inside any number of parentheses, each time the first node in them. -/
inductive InParentheses : Element → Element → Prop
  | here (e : Element) : InParentheses e e
  | around {e c p : Element} : e.kind = .parenthesizedExpression → e.childNodes.head? = some c →
      InParentheses c p → InParentheses e p

/-- The invocation calls `OnPropertyChanged` by its simple name. -/
def CallsNotify (invocation : Element) : Prop :=
  ∃ name token, invocation.childNodes.head? = some name ∧ name.kind = .identifierName ∧
    name.childOfKind? .identifierToken = some token ∧ token.tokenText = "OnPropertyChanged"

/-- The literal is the first argument in the first argument list, apart from parentheses. -/
def Passes (invocation literal : Element) : Prop :=
  ∃ arguments argument expression, invocation.childOfKind? .argumentList = some arguments ∧
    arguments.childNodes.find? (·.kind == .argument) = some argument ∧
    argument.childNodes.head? = some expression ∧ InParentheses expression literal ∧
    literal.kind = .literalExpression

/-- The first string token of the literal can be decoded to the value. -/
def HasValue (literal : Element) (value : String) : Prop :=
  ∃ token, literal.childOfKind? .stringLiteralToken = some token ∧
    Text.Literal.decode? token.tokenText = some value

/-- The invocation calls `OnPropertyChanged` with a literal of the value, and the nearest class
around it declares the symbol. -/
structure Notifies (u : AnalysisUnit) (invocation literal : Element) (value : String)
    (cls : Symbol) : Prop where
  calls : CallsNotify invocation
  passes : Passes invocation literal
  value : HasValue literal value
  declared : ∃ node, u.tree.IsNearest (·.kind = .classDeclaration) invocation node ∧
    u.model.declared? node.id = some cls

/-- The symbol is a property of the class, and its name is the value up to letter case. -/
def Fits (cls : Symbol) (value : String) (m : Symbol) : Prop :=
  m.container = some cls.id ∧ m.kind = .property ∧ Text.lower m.name = Text.lower value

/-- The first property of the class that fits. -/
def IsMeant (symbols : SymbolTable) (cls : Symbol) (value : String) (property : Symbol) : Prop :=
  symbols.IsFirst (Fits cls value) property

/-- What there is to report on an element: at the literal of an invocation that notifies, the
property that is meant. -/
def Finds (u : AnalysisUnit) (x : Element) (d : Diagnostic) : Prop :=
  x.kind = .invocationExpression ∧ ∃ literal value cls property,
    Notifies u x literal value cls ∧ IsMeant u.symbols cls value property ∧
      d = u.diagnostic rule literal.span (.nameOfCandidate property.name) [property.name]

variable {u : AnalysisUnit} {t : Tree} {x y literal literal' : Element} {value value' : String}
variable {cls property : Symbol} {symbols : SymbolTable} {d : Diagnostic}

/-! ### Parts of a call -/

theorem peelParentheses_eq_iff {e p : Element} (hp : p.kind ≠ .parenthesizedExpression) :
    e.peelParentheses = p ↔ InParentheses e p := by
  constructor
  · intro h
    -- what is inside the parentheses is among the children
    induction e using Element.induction with
    | token l tok =>
      obtain rfl : Element.token l tok = p := h
      exact .here _
    | node l cs ih =>
      rw [peelParentheses_eq] at h
      split at h
      · rename_i hkind
        rcases hhead : (node l cs).childNodes.head? with - | c
        · rw [hhead] at h
          obtain rfl : node l cs = p := h
          exact absurd hkind hp
        · rw [hhead] at h
          have hc : c ∈ cs := mem_children_of_mem_childNodes (List.mem_of_mem_head? hhead)
          exact .around hkind hhead (ih c hc h)
      · obtain rfl := h
        exact .here _
  · intro h
    induction h with
    | here e => rw [peelParentheses_eq, if_neg hp]
    | around hkind hhead _ ih =>
      rw [peelParentheses_eq, if_pos hkind, hhead]
      exact ih hp

theorem callsNotify_iff : callsNotify x = true ↔ CallsNotify x := by
  have htext : ∀ name : Element, name.identifierText? = some notifyMethod ↔
      ∃ token, name.kind = .identifierName ∧ name.childOfKind? .identifierToken = some token ∧
        token.tokenText = "OnPropertyChanged" := by
    intro name
    rw [identifierText?]
    split
    · rename_i hkind
      simp only [Option.map_eq_some_iff, hkind, true_and]
      rfl
    · rename_i hkind
      simp only [hkind, false_and, exists_false, reduceCtorEq]
  simp only [callsNotify, beq_iff_eq, Option.bind_eq_some_iff, htext, CallsNotify,
    exists_and_left]

theorem literalArgument?_eq_some_iff : literalArgument? x = some literal ↔
    Passes x literal ∧ (literal.childOfKind? .stringLiteralToken).isSome = true := by
  simp only [literalArgument?, Option.bind_eq_bind, Option.bind_eq_some_iff, Passes]
  constructor
  · rintro ⟨arguments, harguments, argument, hargument, expression, hexpression, h⟩
    split at h
    · rename_i hliteral
      obtain rfl := Option.some.inj h
      rw [Bool.and_eq_true, beq_iff_eq] at hliteral
      have hpeel := (peelParentheses_eq_iff (by rw [hliteral.1]; decide)).mp
        (rfl : expression.peelParentheses = expression.peelParentheses)
      exact ⟨⟨arguments, argument, expression, harguments, hargument, hexpression, hpeel,
        hliteral.1⟩, hliteral.2⟩
    · cases h
  · rintro ⟨⟨arguments, argument, expression, harguments, hargument, hexpression, hpeel, hkind⟩,
      htoken⟩
    have hpeel := (peelParentheses_eq_iff (by rw [hkind]; decide)).mpr hpeel
    refine ⟨arguments, harguments, argument, hargument, expression, hexpression, ?_⟩
    rw [hpeel, hkind, htoken]
    rfl

theorem literalValue?_eq_some_iff :
    literalValue? literal = some value ↔ HasValue literal value := by
  simp only [literalValue?, Option.bind_eq_bind, Option.bind_eq_some_iff, HasValue]

theorem enclosingClass?_eq_some_iff (hx : Below t.top x) (hkind : x.kind = .invocationExpression) :
    enclosingClass? t x = some y ↔ t.IsNearest (·.kind = .classDeclaration) x y := by
  rw [enclosingClass?, Tree.find?_ancestors_eq_some_iff hx (by rw [hkind]; decide)]
  simp only [beq_iff_eq]

theorem property?_eq_some_iff :
    property? symbols cls.id value = some property ↔ IsMeant symbols cls value property := by
  simp only [property?, SymbolTable.members_eq_filter, List.find?_filter,
    SymbolTable.find?_eq_some_iff, IsMeant, Bool.and_eq_true, decide_eq_true_eq, beq_iff_eq]
  exact Iff.rfl

theorem notifies_iff (hx : Below u.tree.top x) (hkind : x.kind = .invocationExpression) :
    Notifies u x literal value cls ↔ callsNotify x = true ∧ literalArgument? x = some literal ∧
      literalValue? literal = some value ∧ ∃ node, enclosingClass? u.tree x = some node ∧
        u.model.declared? node.id = some cls := by
  simp only [callsNotify_iff, literalArgument?_eq_some_iff, literalValue?_eq_some_iff,
    enclosingClass?_eq_some_iff hx hkind]
  constructor
  · rintro ⟨hcalls, hpasses, ⟨token, htoken, hvalue⟩, hdeclared⟩
    exact ⟨hcalls, ⟨hpasses, by rw [htoken]; rfl⟩, ⟨token, htoken, hvalue⟩, hdeclared⟩
  · rintro ⟨hcalls, ⟨hpasses, -⟩, hvalue, hdeclared⟩
    exact ⟨hcalls, hpasses, hvalue, hdeclared⟩

/-! ### What is reported -/

theorem candidate?_eq_some_iff (hx : Below u.tree.top x) (hkind : x.kind = .invocationExpression) :
    candidate? ⟨u, x, false⟩ = some (literal, property) ↔ ∃ value cls,
      Notifies u x literal value cls ∧ IsMeant u.symbols cls value property := by
  simp only [notifies_iff hx hkind, ← property?_eq_some_iff]
  cases hcalls : callsNotify x with
  | false => simp [candidate?, hcalls, guard]
  | true =>
    simp only [candidate?, hcalls, guard, if_true, Option.bind_eq_bind, Option.pure_def,
      Option.bind_some, Option.bind_eq_some_iff, Option.some.injEq, Prod.mk.injEq, true_and]
    constructor
    · rintro ⟨_, hliteral, value, hvalue, node, hnode, cls, hcls, _, hproperty, rfl, rfl⟩
      exact ⟨value, cls, ⟨hliteral, hvalue, node, hnode, hcls⟩, hproperty⟩
    · rintro ⟨value, cls, ⟨hliteral, hvalue, node, hnode, hcls⟩, hproperty⟩
      exact ⟨literal, hliteral, value, hvalue, node, hnode, cls, hcls, property, hproperty, rfl,
        rfl⟩

theorem mem_check_iff (hx : Below u.tree.top x) (hkind : x.kind = .invocationExpression) :
    d ∈ check ⟨u, x, false⟩ ↔ ∃ literal value cls property, Notifies u x literal value cls ∧
      IsMeant u.symbols cls value property ∧
        d = u.diagnostic rule literal.span (.nameOfCandidate property.name) [property.name] := by
  have hcheck : d ∈ check ⟨u, x, false⟩ ↔ ∃ literal property,
      candidate? ⟨u, x, false⟩ = some (literal, property) ∧
        d = u.diagnostic rule literal.span (.nameOfCandidate property.name) [property.name] := by
    rw [check]
    rcases candidate? ⟨u, x, false⟩ with - | ⟨literal, property⟩
    · simp
    · simp [AnalysisUnit.diagnostic]
  rw [hcheck]
  simp only [candidate?_eq_some_iff hx hkind]
  constructor
  · rintro ⟨literal, property, ⟨value, cls, hnotifies, hmeant⟩, hd⟩
    exact ⟨literal, value, cls, property, hnotifies, hmeant, hd⟩
  · rintro ⟨literal, value, cls, property, hnotifies, hmeant, hd⟩
    exact ⟨literal, property, ⟨value, cls, hnotifies, hmeant⟩, hd⟩

theorem length_check_le (ctx : NodeContext) : (check ctx).length ≤ 1 := by
  rw [check]
  split
  · exact Nat.zero_le 1
  · exact Nat.le_refl 1

theorem checks_analyzer (c : Compilation) : analyzer.Checks c rule .invocationExpression
    fun u x => check ⟨u, x, false⟩ where
  rules := rfl
  policy := rfl
  actions := rfl
  own u x d hd := by
    obtain ⟨literal, value, name, -, -, -, rfl⟩ := exists_of_mem_check hd
    exact ⟨_, _, _, rfl⟩
  one u x := length_check_le _

/-! ### No literal is reported twice -/

/-- A literal with a value is found at its span. -/
theorem nodeAt?_span (hliteral : Below t.top literal) (hvalue : HasValue literal value) :
    t.nodeAt? literal.span = some literal := by
  obtain ⟨token, htoken, htext⟩ :=
    of_literalValue?_eq_some (literalValue?_eq_some_iff.mpr hvalue)
  obtain ⟨hisToken, htokenText⟩ := isToken_of_tokenText_ne htext
  have hplaced := t.placed_top.below hliteral
  have hmem : token ∈ literal.children := List.mem_of_find?_eq_some htoken
  obtain ⟨n, hfound, hn, hnode, hspan⟩ := t.exists_nodeAt?_eq hliteral
    (hplaced.visible_of_childOfKind? htoken htext) (isToken_of_mem_children hmem)
  rw [hfound, hplaced.eq_of_span_eq hmem hisToken
    ((hplaced.child hmem).visible_iff.mpr htokenText) hn hnode hspan]

/-- Invocations that notify with literals at the same span are the same. -/
theorem eq_of_span_eq {cls' : Symbol} (hx : Below u.tree.top x) (hy : Below u.tree.top y)
    (h : Notifies u x literal value cls) (h' : Notifies u y literal' value' cls')
    (hspan : literal.span = literal'.span) : x = y := by
  have hargument : ∀ {x literal value cls}, Notifies u x literal value cls →
      literalArgument? x = some literal := by
    intro x literal value cls h
    obtain ⟨token, htoken, -⟩ := h.value
    exact literalArgument?_eq_some_iff.mpr ⟨h.passes, by rw [htoken]; rfl⟩
  have hliteral := (of_literalArgument?_eq_some (hargument h)).1
  have hliteral' := (of_literalArgument?_eq_some (hargument h')).1
  have hfound := nodeAt?_span (hx.trans hliteral) h.value
  have hfound' := nodeAt?_span (hy.trans hliteral') h'.value
  -- the span tells the literal, and the literal tells the invocation
  rw [hspan, hfound'] at hfound
  obtain rfl := Option.some.inj hfound
  have hx' := hargument h
  have hy' := hargument h'
  rw [literalArgument?_eq, Option.filter_eq_some_iff] at hx' hy'
  exact eq_of_argument?_eq hx hy hx'.1 hy'.1

/-! ### Which property is meant -/

/-- The property that is meant is named as the literal says exactly if some property is, and none
that is declared before it differs in letter case only. -/
theorem IsMeant.name_eq_iff (h : IsMeant symbols cls value property) : property.name = value ↔
    ∃ m, symbols.get? m.id = some m ∧ m.container = some cls.id ∧ m.kind = .property ∧
      m.name = value ∧ ∀ m', symbols.get? m'.id = some m' → Fits cls value m' → m'.id < m.id →
        m'.name = value := by
  constructor
  · intro hname
    refine ⟨property, h.known, h.holds.1, h.holds.2.1, hname, ?_⟩
    intro m' hknown hfits hlt
    exact absurd (h.first m' hknown hfits) (Nat.not_le_of_gt hlt)
  · rintro ⟨m, hknown, hcontainer, hkind, rfl, hbefore⟩
    rcases Nat.eq_or_lt_of_le (h.first m hknown ⟨hcontainer, hkind, rfl⟩) with heq | hlt
    · have hsame := h.known
      rw [heq, hknown] at hsame
      rw [Option.some.inj hsame]
    · exact hbefore property h.known h.holds hlt

/-! ### Main results -/

/-- A class with some properties and a call in it that passes the literal `"hue"`. -/
def notifyingCar (properties : List String) : Compilation where
  symbols := (properties.map fun name =>
    ({ name, kind := .property, container := some 0 } : Symbol)).foldl SymbolTable.insert
      (SymbolTable.empty.insert { name := "Car", kind := .namedType, typeKind := some .classType })
  units := [NameOfFix.parenthesizedUnit.source]

/-- Of two properties that differ in letter case only, the first one is named. -/
theorem diagnostics_notifyingCar : (Engine.analyze ⟨{}, builtinAnalyzers, [], false⟩
    (notifyingCar ["Hue", "hue"])).diagnostics.map
      (fun d => (d.ruleId, d.location.file, d.span, d.payload))
    = [("SC0003", ⟨"a.cs"⟩, ⟨20, 25⟩, .nameOfCandidate "Hue")] := by
  decide +kernel

/-- **One diagnostic for each call that could use `nameof`.**  An analysis that is not stopped shows
a diagnostic of the rule for each invocation that notifies with a literal for which a property is
meant, at the literal and with the name of that property, and no other one of the rule; and in no
unit there are two of them at the same place. -/
theorem delivers_nameOf (e : Engine) (c : Compilation) {place : Nat}
    (h : e.InCharge c rule analyzer place) (hrunning : (e.analyze c).cancelled = false) :
    ∃ found, e.Delivers c rule Finds found ∧ ∀ f ∈ found, ∀ g ∈ found, f.unit = g.unit →
      f.diagnostic.span = g.diagnostic.span → f = g := by
  have hfinds : ∀ u ∈ e.unitsOf c, ∀ x, Below u.tree.top x → ∀ d,
      Finds u x d ↔ x.kind = .invocationExpression ∧ d ∈ check ⟨u, x, false⟩ :=
    fun u _ x hx d => and_congr_right fun hkind => (mem_check_iff hx hkind).symm
  obtain ⟨found, hfound⟩ := h.exists_delivers (checks_analyzer c) hfinds hrunning
  refine ⟨found, hfound, ?_⟩
  intro f hf g hg hunit hspan
  obtain ⟨u, x, hu, -, hx, hxid, -, literal, value, cls, property, hnotifies, -, hd⟩ :=
    (hfound.mem_iff f).mp hf
  obtain ⟨v, y, hv, -, hy, hyid, -, literal', value', cls', property', hnotifies', -, hd'⟩ :=
    (hfound.mem_iff g).mp hg
  rw [hunit, hv] at hu
  obtain rfl := Option.some.inj hu
  rw [hd, hd'] at hspan
  obtain rfl := eq_of_span_eq hx hy hnotifies hnotifies' hspan
  exact List.inj_on_of_nodup_map hfound.once hf hg (Prod.ext hunit (hxid.symm.trans hyid))

/-- The literal is inside parentheses, and the property is found in another letter case. -/
theorem delivers_nameOf_notifyingCar :
    let unconfigured : Engine := ⟨{}, builtinAnalyzers, [], false⟩
    let c := notifyingCar ["Age", "Hue"]
    unconfigured.InCharge c rule analyzer 2 ∧ (unconfigured.analyze c).cancelled = false ∧
      (∃ found, unconfigured.Delivers c rule Finds found) ∧
      (unconfigured.analyze c).diagnostics.map (fun d => (d.span, d.payload))
        = [(⟨20, 25⟩, .nameOfCandidate "Hue")] := by
  intro unconfigured c
  have hcharge : unconfigured.InCharge c rule analyzer 2 :=
    Engine.inCharge_builtin rfl c rfl (List.mem_singleton_self rule)
  have hrunning : (unconfigured.analyze c).cancelled = false := by decide +kernel
  obtain ⟨found, hfound, -⟩ := delivers_nameOf unconfigured c hcharge hrunning
  refine ⟨hcharge, hrunning, ⟨found, hfound⟩, ?_⟩
  decide +kernel

/-- **What a diagnostic says of the name.**  Every diagnostic of the rule, also of an analysis that
is stopped, is at the literal of an invocation that notifies, and names the property that is meant.
It names it as the literal says exactly if the class has a property of that name and none is
declared before it whose name differs in letter case only. -/
theorem exists_nameOf_of_mem_diagnostics (e : Engine) (c : Compilation) {place : Nat}
    (h : e.InCharge c rule analyzer place) {d : Diagnostic} (hd : d ∈ (e.analyze c).diagnostics)
    (hid : d.ruleId = rule.id) :
    ∃ u ∈ e.unitsOf c, ∃ x literal value cls property, Below u.tree.top x ∧
      Notifies u x literal value cls ∧ IsMeant u.symbols cls value property ∧
      d.location.file = u.path ∧ d.span = literal.span ∧
      d.payload = .nameOfCandidate property.name ∧
      (property.name = value ↔ ∃ m, u.symbols.get? m.id = some m ∧ m.container = some cls.id ∧
        m.kind = .property ∧ m.name = value ∧ ∀ m', u.symbols.get? m'.id = some m' →
          Fits cls value m' → m'.id < m.id → m'.name = value) := by
  obtain ⟨u, hu, x, hx, hkind, d₀, hd₀, severity, rfl⟩ :=
    h.exists_of_mem_diagnostics (checks_analyzer c) hd hid
  obtain ⟨literal, value, cls, property, hnotifies, hmeant, rfl⟩ := (mem_check_iff hx hkind).mp hd₀
  exact ⟨u, hu, x, literal, value, cls, property, hx, hnotifies, hmeant, rfl, rfl, rfl,
    hmeant.name_eq_iff⟩

/-- Of two properties that differ in letter case only, the first one is meant, and the literal is
that of the other one. -/
theorem exists_nameOf_of_mem_diagnostics_notifyingCar :
    let unconfigured : Engine := ⟨{}, builtinAnalyzers, [], false⟩
    let c := notifyingCar ["Hue", "hue"]
    unconfigured.InCharge c rule analyzer 2 ∧ ∃ d ∈ (unconfigured.analyze c).diagnostics,
      d.ruleId = rule.id ∧ ∃ u ∈ unconfigured.unitsOf c, ∃ x literal value cls property,
        Notifies u x literal value cls ∧ IsMeant u.symbols cls value property ∧
          property.name = "Hue" := by
  intro unconfigured c
  have hcharge : unconfigured.InCharge c rule analyzer 2 :=
    Engine.inCharge_builtin rfl c rfl (List.mem_singleton_self rule)
  obtain ⟨d, hd, hpair⟩ := List.map_eq_singleton_iff.mp diagnostics_notifyingCar
  simp only [Prod.mk.injEq] at hpair
  obtain ⟨hid, -, -, hpayload⟩ := hpair
  have hmem : d ∈ (unconfigured.analyze c).diagnostics := hd ▸ List.mem_cons_self
  obtain ⟨u, hu, x, literal, value, cls, property, -, hnotifies, hmeant, -, -, hname, -⟩ :=
    exists_nameOf_of_mem_diagnostics unconfigured c hcharge hmem hid
  rw [hpayload, Payload.nameOfCandidate.injEq] at hname
  exact ⟨hcharge, d, hmem, hid, u, hu, x, literal, value, cls, property, hnotifies, hmeant,
    hname.symm⟩

/-- A class with a property that is named as the literal says need not have it named. -/
theorem not_payload_eq_value :
    ¬∀ (e : Engine) (c : Compilation), e.analyzers = builtinAnalyzers →
      ∀ d ∈ (e.analyze c).diagnostics, d.ruleId = rule.id → ∀ u ∈ e.unitsOf c,
        ∀ x literal value cls, Below u.tree.top x → Notifies u x literal value cls →
          d.location.file = u.path → d.span = literal.span →
            (∃ m, u.symbols.get? m.id = some m ∧ m.container = some cls.id ∧ m.kind = .property ∧
              m.name = value) → d.payload = .nameOfCandidate value := by
  have hcall : NameOfFix.parenthesizedCall.top.children.head?.map
      (fun x => (x.kind, callsNotify x)) = some (.invocationExpression, true) := by
    decide +kernel
  have hliteral : (NameOfFix.parenthesizedCall.top.children.head?.bind literalArgument?).map
      (fun literal => (literal.span, literalValue? literal)) = some (⟨20, 25⟩, some "hue") := by
    decide +kernel
  have hclass : (NameOfFix.parenthesizedCall.top.children.head?.bind
      (enclosingClass? NameOfFix.parenthesizedCall)).map Element.id = some 0 := by
    decide +kernel
  intro hall
  obtain ⟨d, hd, hpair⟩ := List.map_eq_singleton_iff.mp diagnostics_notifyingCar
  obtain ⟨x, hx, hcall⟩ := Option.map_eq_some_iff.mp hcall
  rw [hx, Option.bind_some] at hliteral hclass
  simp only [Prod.mk.injEq, Option.map_eq_some_iff] at hpair hcall hliteral hclass
  obtain ⟨hid, hfile, hspan, hpayload⟩ := hpair
  obtain ⟨hkind, hcalls⟩ := hcall
  obtain ⟨literal, hargument, hliteralSpan, hvalue⟩ := hliteral
  obtain ⟨node, hnode, hnodeId⟩ := hclass
  let u : AnalysisUnit :=
    ⟨NameOfFix.parenthesizedUnit.source, (notifyingCar ["Hue", "hue"]).symbols, false⟩
  have hbelow : Below u.tree.top x := .of_child (List.mem_of_mem_head? hx)
  have hcls : u.model.declared? node.id
      = some { name := "Car", kind := .namedType, typeKind := some .classType } := by
    rw [hnodeId]
    rfl
  let hue : Symbol := { id := 2, name := "hue", kind := .property, container := some 0 }
  have hhue : u.symbols.get? hue.id = some hue := rfl
  have hnotifies := (notifies_iff (u := u) hbelow hkind).mpr
    ⟨hcalls, hargument, hvalue, node, hnode, hcls⟩
  have hsame := hall ⟨{}, builtinAnalyzers, [], false⟩ (notifyingCar ["Hue", "hue"]) rfl d
    (hd ▸ List.mem_cons_self) hid u (List.mem_singleton_self _) x literal "hue" _ hbelow hnotifies
    hfile (hspan.trans hliteralSpan.symm) ⟨hue, hhue, rfl, rfl, rfl⟩
  rw [hpayload, Payload.nameOfCandidate.injEq] at hsame
  exact absurd hsame (by decide)

end PropertyChanged

end TreeLint
