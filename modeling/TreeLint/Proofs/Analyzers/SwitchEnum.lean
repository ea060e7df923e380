/-
TreeLint/Proofs/Analyzers/SwitchEnum.lean

Which switches leave members of their enum out.

A case label has a key if its value is bound to a symbol that has one
(`HasKey`).  If all case labels of a switch over an enum have keys, the switch is
judged: it leaves out the declared members that none of these keys denotes, in
the order of declaration (`LeavesOut`).  A member without a key is denoted by no
label.

This is a matter of the set of keys.  Two switches over one enum with the same
keys leave out the same members, and one that has more keys leaves out fewer
(`LeavesOut.sublist`).
-/
import Mathlib.Data.List.Sort
import TreeLint.Proofs.Analysis.Verdicts
import TreeLint.Proofs.Fix.MissingCases

namespace TreeLint

open Element

namespace SwitchEnum

/-! ### Switches that leave members out -/

/-- A case label of one of the sections of the switch. -/
def IsCaseLabel (switch label : Element) : Prop :=
  ∃ s ∈ switch.children, s.isToken = false ∧ s.kind = .switchSection ∧
    label ∈ s.children ∧ label.isToken = false ∧ label.kind = .caseSwitchLabel

/-- The label has a value, and the value is bound to a symbol that has the key. -/
def HasKey (model : Model) (label : Element) (k : SymbolKey) : Prop :=
  ∃ value s, label.childNodes.head? = some value ∧ model.referenced? value.id = some s ∧
    model.symbols.key? s.id = some k

/-- Some case label of the switch has the key. -/
def Names (model : Model) (switch : Element) (k : SymbolKey) : Prop :=
  ∃ label, IsCaseLabel switch label ∧ HasKey model label k

/-- The switch branches on an expression whose type is an enum, and all its case labels have
keys. -/
structure Judged (model : Model) (switch expression : Element) (enum : Symbol) : Prop where
  governs : switch.switchExpression? = some expression
  typed : model.type? expression.id = some enum
  isEnum : enum.kind = .namedType ∧ enum.typeKind = some .enumType
  resolved : ∀ label, IsCaseLabel switch label → ∃ k, HasKey model label k

/-- The symbols are the members of the enum, in the order of declaration, that are not made up by
the host and have no key that a case label of the switch has. -/
structure LeavesOut (model : Model) (switch : Element) (enum : Symbol) (missing : List Symbol) :
    Prop where
  mem_iff : ∀ m, m ∈ missing ↔ model.symbols.get? m.id = some m ∧ m.container = some enum.id ∧
    m.implicitlyDeclared = false ∧ ¬∃ k, model.symbols.key? m.id = some k ∧ Names model switch k
  ordered : missing.Pairwise (·.id < ·.id)

/-- The switch is judged and leaves members out. -/
structure Incomplete (model : Model) (switch expression : Element) (enum : Symbol)
    (missing : List Symbol) : Prop where
  judged : Judged model switch expression enum
  leavesOut : LeavesOut model switch enum missing
  missing_ne : missing ≠ []

/-- What there is to report on an element: at the expression of a switch that is incomplete, the
names of the members that it leaves out. -/
def Finds (u : AnalysisUnit) (x : Element) (d : Diagnostic) : Prop :=
  x.kind = .switchStatement ∧ ∃ expression enum missing,
    Incomplete u.model x expression enum missing ∧
      d = u.diagnostic rule expression.span
        (.missingEnumCases enum.name (missing.map (·.name))) []

variable {model model' : Model} {switch switch' label expression expression' : Element}
variable {enum : Symbol} {k : SymbolKey} {covered : List SymbolKey} {missing missing' : List Symbol}

/-! ### Keys and members -/

theorem labelKey?_eq_some_iff : labelKey? model label = some k ↔ HasKey model label k := by
  simp only [labelKey?, Option.bind_eq_bind, Option.bind_eq_some_iff, HasKey]
  constructor
  · rintro ⟨value, hvalue, s, hs, hk⟩
    exact ⟨value, s, hvalue, hs, hk⟩
  · rintro ⟨value, s, hvalue, hs, hk⟩
    exact ⟨value, hvalue, s, hs, hk⟩

theorem exists_covered_iff :
    (∃ covered, (caseLabels switch).mapM (labelKey? model) = some covered) ↔
      ∀ label, IsCaseLabel switch label → ∃ k, HasKey model label k := by
  simp only [exists_mapM_eq_some_iff, mem_caseLabels_iff, labelKey?_eq_some_iff, IsCaseLabel]

theorem mem_covered_iff (h : (caseLabels switch).mapM (labelKey? model) = some covered) :
    k ∈ covered ↔ Names model switch k := by
  simp only [mem_iff_of_mapM_eq_some h, mem_caseLabels_iff, labelKey?_eq_some_iff, Names,
    IsCaseLabel]

/-- The members that the analyzer lists are those that the switch leaves out. -/
theorem leavesOut_missingSymbols
    (h : (caseLabels switch).mapM (labelKey? model) = some covered) :
    LeavesOut model switch enum (missingSymbols model.symbols enum.id covered) where
  mem_iff m := by
    have hdenoted : (model.symbols.key? m.id).any covered.contains = false ↔
        ¬∃ k, model.symbols.key? m.id = some k ∧ Names model switch k := by
      simp only [← Bool.not_eq_true, Option.any_eq_true, List.contains_iff_mem, mem_covered_iff h]
    simp only [missingSymbols, List.mem_filter, SymbolTable.mem_members_iff, Bool.and_eq_true,
      Bool.not_eq_true', hdenoted, and_assoc]
  ordered := by
    rw [missingSymbols, SymbolTable.members_eq_filter]
    exact (model.symbols.pairwise_id.filter _).filter _

namespace LeavesOut

/-- With more keys, fewer members are left out. -/
theorem sublist (h : LeavesOut model switch enum missing)
    (h' : LeavesOut model' switch' enum missing') (hsymbols : model'.symbols = model.symbols)
    (hnames : ∀ k, Names model switch k → Names model' switch' k) : missing'.Sublist missing := by
  have hsubset : missing' ⊆ missing := by
    intro m hm
    obtain ⟨hknown, hcontainer, hdeclared, hnot⟩ := (h'.mem_iff m).mp hm
    rw [hsymbols] at hknown hnot
    refine (h.mem_iff m).mpr ⟨hknown, hcontainer, hdeclared, ?_⟩
    rintro ⟨k, hk, hnamed⟩
    exact hnot ⟨k, hk, hnames k hnamed⟩
  -- both lists are in the order of declaration, so a part of the other one is a sublist of it
  have hasymm : Std.Antisymm fun m n : Symbol => m.id < n.id :=
    ⟨fun _ _ hlt hgt => absurd hgt hlt.asymm⟩
  have hnodup : missing'.Nodup := h'.ordered.imp fun hlt heq => hlt.ne (congrArg Symbol.id heq)
  exact List.sublist_of_subperm_of_pairwise (hnodup.subperm hsubset) h'.ordered h.ordered

theorem eq_of_names_iff (h : LeavesOut model switch enum missing)
    (h' : LeavesOut model' switch' enum missing') (hsymbols : model'.symbols = model.symbols)
    (hnames : ∀ k, Names model' switch' k ↔ Names model switch k) : missing' = missing :=
  (h.sublist h' hsymbols fun k => (hnames k).mpr).antisymm
    (h'.sublist h hsymbols.symm fun k => (hnames k).mp)

end LeavesOut

theorem Judged.exists_leavesOut (h : Judged model switch expression enum) :
    ∃ missing, LeavesOut model switch enum missing := by
  obtain ⟨covered, hcovered⟩ := exists_covered_iff.mpr h.resolved
  exact ⟨_, leavesOut_missingSymbols hcovered⟩

namespace Incomplete

/-- A switch with the same keys is incomplete in the same way. -/
theorem of_names_iff (h : Incomplete model switch expression enum missing)
    (hjudged : Judged model' switch' expression' enum) (hsymbols : model'.symbols = model.symbols)
    (hnames : ∀ k, Names model' switch' k ↔ Names model switch k) :
    Incomplete model' switch' expression' enum missing := by
  obtain ⟨missing', hout⟩ := hjudged.exists_leavesOut
  obtain rfl := h.leavesOut.eq_of_names_iff hout hsymbols hnames
  exact ⟨hjudged, hout, h.missing_ne⟩

/-- A switch with fewer keys is incomplete, too, and leaves out no less. -/
theorem exists_of_names (h : Incomplete model' switch' expression' enum missing')
    (hjudged : Judged model switch expression enum) (hsymbols : model'.symbols = model.symbols)
    (hnames : ∀ k, Names model switch k → Names model' switch' k) :
    ∃ missing, Incomplete model switch expression enum missing ∧ missing'.Sublist missing := by
  obtain ⟨missing, hout⟩ := hjudged.exists_leavesOut
  have hsublist := hout.sublist h.leavesOut hsymbols hnames
  refine ⟨missing, ⟨hjudged, hout, ?_⟩, hsublist⟩
  rintro rfl
  exact h.missing_ne (List.sublist_nil.mp hsublist)

end Incomplete

/-! ### What is reported -/

theorem mem_check_iff {u : AnalysisUnit} {d : Diagnostic} :
    d ∈ check ⟨u, switch, false⟩ ↔ ∃ expression enum missing,
      Incomplete u.model switch expression enum missing ∧ d = u.diagnostic rule expression.span
          (.missingEnumCases enum.name (missing.map (·.name))) [] := by
  constructor
  · intro hd
    obtain ⟨expression, enum, covered, hexpression, htype, henum, hcovered, hmissing, rfl⟩ :=
      exists_of_mem_check hd
    rw [Symbol.isEnum, Bool.and_eq_true, beq_iff_eq, beq_iff_eq] at henum
    rw [missingMembers_eq, ne_eq, List.map_eq_nil_iff] at hmissing
    exact ⟨expression, enum, _, ⟨⟨hexpression, htype, henum, exists_covered_iff.mp ⟨_, hcovered⟩⟩,
      leavesOut_missingSymbols hcovered, hmissing⟩, rfl⟩
  · rintro ⟨expression, enum, missing, ⟨hjudged, hmissing, hne⟩, rfl⟩
    obtain ⟨covered, hcovered⟩ := exists_covered_iff.mpr hjudged.resolved
    -- what the switch leaves out is determined, so it is what the analyzer lists
    obtain rfl := (leavesOut_missingSymbols hcovered).eq_of_names_iff hmissing rfl fun _ => Iff.rfl
    have henum : enum.isEnum = true := by
      rw [Symbol.isEnum, hjudged.isEnum.1, hjudged.isEnum.2]
      rfl
    have hmembers : (missingMembers u.model.symbols enum.id covered).isEmpty = false := by
      rw [missingMembers_eq, List.isEmpty_map, List.isEmpty_eq_false_iff]
      exact hne
    simp only [check, hjudged.governs, hjudged.typed, hcovered, henum, hmembers]
    exact List.mem_singleton_self _

theorem length_check_le (ctx : NodeContext) : (check ctx).length ≤ 1 := by
  simp only [check]
  split
  · exact Nat.zero_le 1
  · split
    · exact Nat.zero_le 1
    · split
      · exact Nat.zero_le 1
      · split
        · exact Nat.zero_le 1
        · split
          · exact Nat.zero_le 1
          · exact Nat.le_refl 1

theorem checks_analyzer (c : Compilation) : analyzer.Checks c rule .switchStatement
    fun u x => check ⟨u, x, false⟩ where
  rules := rfl
  policy := rfl
  actions := rfl
  own u x d hd := by
    obtain ⟨expression, enum, missing, -, rfl⟩ := mem_check_iff.mp hd
    exact ⟨_, _, _, rfl⟩
  one u x := length_check_le _

/-! ### Main result -/

/-- **One diagnostic for each switch that leaves members out.**  An analysis that is not stopped
shows a diagnostic of the rule for each switch that is incomplete, at the expression and with the
names of all members that it leaves out in the order of declaration, and no other one of the rule.
Switches over one enum that are judged and have the same keys, however these are spelled and placed
and whatever other labels there are, are incomplete in the same way or not at all; and with more
keys the list only gets shorter. -/
theorem delivers_incomplete (e : Engine) (c : Compilation) {place : Nat}
    (h : e.InCharge c rule analyzer place) (hrunning : (e.analyze c).cancelled = false) :
    (∃ found, e.Delivers c rule Finds found) ∧
      ∀ model switch expression model' switch' expression' enum,
        Judged model switch expression enum → Judged model' switch' expression' enum →
        model'.symbols = model.symbols →
          ((∀ k, Names model' switch' k ↔ Names model switch k) → ∀ missing,
            Incomplete model' switch' expression' enum missing ↔
              Incomplete model switch expression enum missing) ∧
          ((∀ k, Names model switch k → Names model' switch' k) → ∀ missing',
            Incomplete model' switch' expression' enum missing' → ∃ missing,
              Incomplete model switch expression enum missing ∧
                (missing'.map (·.name)).Sublist (missing.map (·.name))) := by
  refine ⟨h.exists_delivers (checks_analyzer c) ?_ hrunning, ?_⟩
  · intro u _ x _ d
    rw [Finds, mem_check_iff]
  · intro model switch expression model' switch' expression' enum hjudged hjudged' hsymbols
    constructor
    · intro hnames missing
      exact ⟨fun h => h.of_names_iff hjudged hsymbols.symm fun k => (hnames k).symm,
        fun h => h.of_names_iff hjudged' hsymbols hnames⟩
    · intro hnames missing' hincomplete
      obtain ⟨missing, hmissing, hsublist⟩ := hincomplete.exists_of_names hjudged hsymbols hnames
      exact ⟨missing, hmissing, hsublist.map _⟩

/-- Two switches with one key: the first one has it once, the second one twice after a default
label. -/
def repeatedLabels : Tree :=
  ⟨#[⟨.block, [1, 2], none⟩, ⟨.switchStatement, [3, 4, 5], none⟩,
      ⟨.switchStatement, [6, 7, 8], none⟩, ⟨.switchKeyword, [], some ⟨"switch", ""⟩⟩,
      ⟨.identifierName, [9], none⟩, ⟨.switchSection, [10], none⟩,
      ⟨.switchKeyword, [], some ⟨"switch", "\n"⟩⟩, ⟨.identifierName, [11], none⟩,
      ⟨.switchSection, [12, 13, 14], none⟩, ⟨.identifierToken, [], some ⟨"a", " "⟩⟩,
      ⟨.caseSwitchLabel, [15], none⟩, ⟨.identifierToken, [], some ⟨"b", " "⟩⟩,
      ⟨.defaultSwitchLabel, [16], none⟩, ⟨.caseSwitchLabel, [17], none⟩,
      ⟨.caseSwitchLabel, [18], none⟩, ⟨.identifierName, [19], none⟩,
      ⟨.defaultKeyword, [], some ⟨"default", " "⟩⟩, ⟨.identifierName, [20], none⟩,
      ⟨.identifierName, [21], none⟩, ⟨.identifierToken, [], some ⟨"Red", " "⟩⟩,
      ⟨.identifierToken, [], some ⟨"Red", " "⟩⟩, ⟨.identifierToken, [], some ⟨"Red", " "⟩⟩],
    0, #[none, some 0, some 0, some 1, some 1, some 1, some 2, some 2, some 2, some 4, some 5,
      some 7, some 8, some 8, some 8, some 10, some 12, some 13, some 14, some 15, some 17,
      some 18], _, rfl, rfl⟩

/-- An enum with three members, one of them made up, and the bindings of the switches. -/
def colorSwitches : Compilation where
  symbols :=
    [{ name := "Color", kind := .namedType, typeKind := some .enumType },
      { name := "Red", kind := .enumMember, container := some 0 },
      { name := "Green", kind := .enumMember, container := some 0 },
      { name := "Other", kind := .enumMember, container := some 0,
        implicitlyDeclared := true }].foldl SymbolTable.insert .empty
  units := [{
    path := ⟨"a.cs"⟩
    tree := repeatedLabels
    bindings := {
      types := ⟨[(4, 0), (7, 0)], by decide⟩
      referenced := ⟨[(15, 1), (17, 1), (18, 1)], by decide⟩ } }]

/-- Both switches leave out the same member. -/
theorem delivers_incomplete_colorSwitches :
    let unconfigured : Engine := ⟨{}, builtinAnalyzers, [], false⟩
    unconfigured.InCharge colorSwitches rule analyzer 1 ∧
      (unconfigured.analyze colorSwitches).cancelled = false ∧
      (∃ found, unconfigured.Delivers colorSwitches rule Finds found) ∧
      (unconfigured.analyze colorSwitches).diagnostics.map (fun d => (d.span, d.payload))
        = [(⟨7, 8⟩, .missingEnumCases "Color" ["Green"]),
          (⟨20, 21⟩, .missingEnumCases "Color" ["Green"])] := by
  intro unconfigured
  have hcharge : unconfigured.InCharge colorSwitches rule analyzer 1 :=
    Engine.inCharge_builtin rfl colorSwitches rfl (List.mem_singleton_self rule)
  have hrunning : (unconfigured.analyze colorSwitches).cancelled = false := by decide +kernel
  obtain ⟨hfound, -⟩ := delivers_incomplete unconfigured colorSwitches hcharge hrunning
  refine ⟨hcharge, hrunning, hfound, ?_⟩
  rw [Engine.diagnostics_analyze_eq_insertionSort]
  decide +kernel

end SwitchEnum

end TreeLint
