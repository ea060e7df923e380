/-
TreeLint/Proofs/Analyzers/EqualsHashCode.lean

Which classes have one half of the pair.

The rule looks at the methods that a class declaration has as children and that
are marked as overrides.  Each of them is followed back to the member at the end
of its chain of overridden members, and what counts is the structural key of that
member (`HasRootKey`).  A class is *unpaired* if all its overrides can be followed
and their keys have that of one of the two methods of the object type and not
that of the other (`Unpaired`).

The two methods take different numbers of parameters, so they have different keys,
and it does not matter that the analyzer lets a key count for one of them only
(`halves_iff`).  A class is judged by its own overrides: by what symbols they
declare, not by their order or by anything else around them (`SameOverrides`).
-/
import TreeLint.Proofs.Analysis.Unbinding
import TreeLint.Proofs.Analysis.Verdicts
import TreeLint.Proofs.Symbol.Chains

namespace TreeLint

open Element

theorem Model.get?_of_declared? {model : Model} {node : NodeId} {s : Symbol}
    (h : model.declared? node = some s) : model.symbols.get? s.id = some s := by
  obtain ⟨id, -, hs⟩ := Option.bind_eq_some_iff.mp h
  rwa [SymbolTable.id_eq_of_get?_eq_some hs]

namespace EqualsHashCode

/-! ### Classes with one half -/

/-- A child of the class that is a method with the modifier `override`. -/
def IsOverride (cls method : Element) : Prop :=
  method ∈ cls.children ∧ method.isToken = false ∧ method.kind = .methodDeclaration ∧
    ∃ token ∈ method.children, token.isToken = true ∧ token.kind = .overrideKeyword

/-- There is a symbol, and its chain of overridden members ends in one that is no override and has
the key. -/
def HasRootKey (symbols : SymbolTable) (declared? : Option Symbol) (k : SymbolKey) : Prop :=
  ∃ s r, declared? = some s ∧ symbols.GoesBackTo s r ∧ symbols.key? r.id = some k

/-- The key is that of the first method with a name and a number of parameters that the first symbol
marked as the object type has. -/
def IsCanonical (symbols : SymbolTable) (name : String) (parameters : Nat) (k : SymbolKey) : Prop :=
  ∃ object m, symbols.IsFirst (·.special = some .object) object ∧
    symbols.IsFirst (fun m => m.container = some object.id ∧ m.kind = .method ∧ m.name = name ∧
      m.parameterCount = parameters) m ∧
    symbols.key? m.id = some k

/-- Some override of the class goes back to the method of the object type. -/
def Overrides (model : Model) (cls : Element) (name : String) (parameters : Nat) : Prop :=
  ∃ method k, IsOverride cls method ∧ HasRootKey model.symbols (model.declared? method.id) k ∧
    IsCanonical model.symbols name parameters k

/-- All overrides of the class can be followed, and they have one half of the pair: `Equals`, or
otherwise `GetHashCode`. -/
structure Unpaired (model : Model) (cls : Element) (equals : Bool) : Prop where
  followed : ∀ method, IsOverride cls method →
    ∃ k, HasRootKey model.symbols (model.declared? method.id) k
  equals_iff : Overrides model cls "Equals" 1 ↔ equals = true
  getHashCode_iff : Overrides model cls "GetHashCode" 0 ↔ equals = false

/-- What there is to report on an element: at the identifier of a class that is unpaired, which half
it has. -/
def Finds (u : AnalysisUnit) (x : Element) (d : Diagnostic) : Prop :=
  x.kind = .classDeclaration ∧ ∃ identifier equals,
    x.childOfKind? .identifierToken = some identifier ∧ Unpaired u.model x equals ∧
      d = u.diagnostic rule identifier.span (.pairedOverride equals) []

/-- The overrides of two classes declare the same symbols, and either both classes have overrides
that declare none or neither does. -/
structure SameOverrides (model : Model) (cls : Element) (model' : Model) (cls' : Element) :
    Prop where
  symbols : model'.symbols = model.symbols
  declared : ∀ s : Option Symbol,
    (∃ method, IsOverride cls' method ∧ model'.declared? method.id = s) ↔
      ∃ method, IsOverride cls method ∧ model.declared? method.id = s

variable {symbols : SymbolTable} {model model' : Model} {cls cls' method : Element} {k : SymbolKey}
variable {name : String} {parameters : Nat} {keys : List SymbolKey} {equals : Bool}

/-! ### Keys -/

theorem mem_overrides_iff : method ∈ overrides cls ↔ IsOverride cls method := by
  simp only [overrides, childNodes, hasModifier, List.mem_filter, Bool.and_eq_true, beq_iff_eq,
    List.any_eq_true, Bool.not_eq_true', IsOverride]
  constructor
  · rintro ⟨⟨hmem, hnode⟩, hkind, htoken⟩
    exact ⟨hmem, hnode, hkind, htoken⟩
  · rintro ⟨hmem, hnode, hkind, htoken⟩
    exact ⟨⟨hmem, hnode⟩, hkind, htoken⟩

theorem rootKey?_eq_some_iff :
    rootKey? model method = some k ↔ HasRootKey model.symbols (model.declared? method.id) k := by
  simp only [rootKey?, Option.bind_eq_bind, Option.bind_eq_some_iff, HasRootKey]
  constructor
  · rintro ⟨s, hs, r, hr, hk⟩
    exact ⟨s, r, hs, (SymbolTable.overrideRoot?_eq_some_iff (Model.get?_of_declared? hs)).mp hr, hk⟩
  · rintro ⟨s, r, hs, hr, hk⟩
    exact ⟨s, hs, r,
      (SymbolTable.overrideRoot?_eq_some_iff (Model.get?_of_declared? hs)).mpr hr, hk⟩

theorem methodKey?_eq_some_iff {container : SymbolId} :
    methodKey? symbols container name parameters = some k ↔
      ∃ m, symbols.IsFirst (fun m => m.container = some container ∧ m.kind = .method ∧
        m.name = name ∧ m.parameterCount = parameters) m ∧ symbols.key? m.id = some k := by
  simp only [methodKey?, SymbolTable.members_eq_filter, List.find?_filter, Option.bind_eq_bind,
    Option.bind_eq_some_iff, SymbolTable.find?_eq_some_iff, Symbol.isMethod, decide_eq_true_eq,
    Bool.and_eq_true, beq_iff_eq, and_assoc]

theorem resolve_iff :
    ((Canonical.resolve symbols).equals = some k ↔ IsCanonical symbols "Equals" 1 k) ∧
      ((Canonical.resolve symbols).getHashCode = some k ↔
        IsCanonical symbols "GetHashCode" 0 k) := by
  have hobject : ∀ object, symbols.specialType? .object = some object ↔
      symbols.IsFirst (·.special = some .object) object := by
    intro object
    simp only [SymbolTable.specialType?, SymbolTable.find?_eq_some_iff, beq_iff_eq]
  have hmethod : ∀ name parameters, IsCanonical symbols name parameters k ↔
      ∃ object, symbols.specialType? .object = some object ∧
        methodKey? symbols object.id name parameters = some k := by
    intro name parameters
    simp only [IsCanonical, hobject, methodKey?_eq_some_iff, exists_and_left]
  rw [hmethod, hmethod, Canonical.resolve]
  cases symbols.specialType? .object <;> simp

theorem parameterCount_of_isCanonical (h : IsCanonical symbols name parameters k) :
    k.parameterCount = parameters := by
  obtain ⟨object, m, -, hm, hk⟩ := h
  simp only [SymbolTable.key?, hm.known, Option.bind_eq_bind, Option.bind_some,
    Option.bind_eq_some_iff] at hk
  obtain ⟨outer, -, hk⟩ := hk
  rw [← Option.some.inj hk]
  exact hm.holds.2.2.2

/-- Both halves are told by the keys of the two methods. -/
theorem halves_iff (hkeys : (overrides cls).mapM (rootKey? model) = some keys) :
    ((halves (Canonical.resolve model.symbols) keys).1 = true ↔ Overrides model cls "Equals" 1) ∧
      ((halves (Canonical.resolve model.symbols) keys).2 = true ↔
        Overrides model cls "GetHashCode" 0) := by
  have hmem : ∀ k, k ∈ keys ↔ ∃ method, IsOverride cls method ∧
      HasRootKey model.symbols (model.declared? method.id) k := by
    intro k
    simp only [mem_iff_of_mapM_eq_some hkeys, mem_overrides_iff, rootKey?_eq_some_iff]
  -- a key of `GetHashCode` is none of `Equals`
  have hapart : ∀ k, IsCanonical model.symbols "GetHashCode" 0 k →
      ¬IsCanonical model.symbols "Equals" 1 k := by
    intro k h h'
    have hcount := (parameterCount_of_isCanonical h').symm.trans (parameterCount_of_isCanonical h)
    exact absurd hcount (by decide)
  simp only [halves, List.any_eq_true, beq_iff_eq, bne_iff_ne, Bool.and_eq_true, ne_eq,
    resolve_iff.1, resolve_iff.2, hmem, Overrides]
  constructor
  · constructor
    · rintro ⟨k, ⟨method, hmethod, hroot⟩, hk⟩
      exact ⟨method, k, hmethod, hroot, hk⟩
    · rintro ⟨method, k, hmethod, hroot, hk⟩
      exact ⟨k, ⟨method, hmethod, hroot⟩, hk⟩
  · constructor
    · rintro ⟨k, ⟨method, hmethod, hroot⟩, -, hk⟩
      exact ⟨method, k, hmethod, hroot, hk⟩
    · rintro ⟨method, k, hmethod, hroot, hk⟩
      exact ⟨k, ⟨method, hmethod, hroot⟩, hapart k hk, hk⟩

/-! ### What is reported -/

/-- The keys of the overrides tell whether the class is unpaired. -/
theorem unpaired_iff : Unpaired model cls equals ↔
    ∃ keys, (overrides cls).mapM (rootKey? model) = some keys ∧
      halves (Canonical.resolve model.symbols) keys = (equals, !equals) := by
  have hfollowed : (∃ keys, (overrides cls).mapM (rootKey? model) = some keys) ↔
      ∀ method, IsOverride cls method →
        ∃ k, HasRootKey model.symbols (model.declared? method.id) k := by
    simp only [exists_mapM_eq_some_iff, mem_overrides_iff, rootKey?_eq_some_iff]
  constructor
  · intro h
    obtain ⟨keys, hkeys⟩ := hfollowed.mpr h.followed
    obtain ⟨hequals, hgetHashCode⟩ := halves_iff hkeys
    refine ⟨keys, hkeys, Prod.ext ?_ ?_⟩
    · rw [Bool.eq_iff_iff, hequals, h.equals_iff]
    · rw [Bool.eq_iff_iff, hgetHashCode, h.getHashCode_iff, Bool.not_eq_true']
  · rintro ⟨keys, hkeys, hhalves⟩
    obtain ⟨hequals, hgetHashCode⟩ := halves_iff hkeys
    simp only [hhalves, Bool.not_eq_true'] at hequals hgetHashCode
    exact ⟨hfollowed.mp ⟨keys, hkeys⟩, hequals.symm, hgetHashCode.symm⟩

theorem mem_check_iff {u : AnalysisUnit} {d : Diagnostic} :
    d ∈ check (Canonical.resolve u.symbols) ⟨u, cls, false⟩ ↔ ∃ identifier equals,
      cls.childOfKind? .identifierToken = some identifier ∧ Unpaired u.model cls equals ∧
        d = u.diagnostic rule identifier.span (.pairedOverride equals) [] := by
  have hsymbols : u.model.symbols = u.symbols := rfl
  simp only [unpaired_iff, hsymbols, check, declarationIdentifier?]
  rcases (overrides cls).mapM (rootKey? u.model) with - | keys
  · simp
  · rcases hhalves : halves (Canonical.resolve u.symbols) keys with ⟨e, g⟩
    rcases cls.childOfKind? .identifierToken with - | identifier
    · cases e <;> cases g <;> simp
    · cases e <;> cases g <;> simp [hhalves]

theorem length_check_le (canonical : Canonical) (ctx : NodeContext) :
    (check canonical ctx).length ≤ 1 := by
  simp only [check]
  split
  · exact Nat.zero_le 1
  · split
    · exact Nat.zero_le 1
    · split
      · exact Nat.zero_le 1
      · exact Nat.le_refl 1

theorem checks_analyzer (c : Compilation) : analyzer.Checks c rule .classDeclaration
    fun u x => check (Canonical.resolve c.symbols) ⟨u, x, false⟩ where
  rules := rfl
  policy := rfl
  actions := rfl
  own u x d hd := by
    obtain ⟨identifier, equals, -, rfl⟩ := exists_of_mem_check hd
    exact ⟨_, _, _, rfl⟩
  one u x := length_check_le _ _

/-! ### Order and surroundings -/

namespace SameOverrides

/-- The order of the members does not matter. -/
theorem of_perm (h : cls'.children.Perm cls.children) : SameOverrides model cls model cls' where
  symbols := rfl
  declared s := by simp only [IsOverride, h.mem_iff]

variable (h : SameOverrides model cls model' cls')
include h

theorem overrides_iff :
    Overrides model' cls' name parameters ↔ Overrides model cls name parameters := by
  have hkeys : ∀ {model : Model} {cls : Element}, Overrides model cls name parameters ↔
      ∃ s k, (∃ method, IsOverride cls method ∧ model.declared? method.id = s) ∧
        HasRootKey model.symbols s k ∧ IsCanonical model.symbols name parameters k := by
    intro model cls
    constructor
    · rintro ⟨method, k, hmethod, hroot, hk⟩
      exact ⟨_, k, ⟨method, hmethod, rfl⟩, hroot, hk⟩
    · rintro ⟨_, k, ⟨method, hmethod, rfl⟩, hroot, hk⟩
      exact ⟨method, k, hmethod, hroot, hk⟩
  simp only [hkeys, h.declared, h.symbols]

theorem followed_iff :
    (∀ method, IsOverride cls' method →
        ∃ k, HasRootKey model'.symbols (model'.declared? method.id) k) ↔
      ∀ method, IsOverride cls method →
        ∃ k, HasRootKey model.symbols (model.declared? method.id) k := by
  have hsymbols : ∀ {model : Model} {cls : Element}, (∀ method, IsOverride cls method →
      ∃ k, HasRootKey model.symbols (model.declared? method.id) k) ↔
      ∀ s, (∃ method, IsOverride cls method ∧ model.declared? method.id = s) →
        ∃ k, HasRootKey model.symbols s k := by
    intro model cls
    constructor
    · rintro hall _ ⟨method, hmethod, rfl⟩
      exact hall method hmethod
    · intro hall method hmethod
      exact hall _ ⟨method, hmethod, rfl⟩
  rw [hsymbols, hsymbols]
  simp only [h.declared, h.symbols]

/-- A class is judged by the symbols that its overrides declare. -/
theorem unpaired_iff : Unpaired model' cls' equals ↔ Unpaired model cls equals := by
  constructor
  · intro hcls
    exact ⟨h.followed_iff.mp hcls.followed, h.overrides_iff.symm.trans hcls.equals_iff,
      h.overrides_iff.symm.trans hcls.getHashCode_iff⟩
  · intro hcls
    exact ⟨h.followed_iff.mpr hcls.followed, h.overrides_iff.trans hcls.equals_iff,
      h.overrides_iff.trans hcls.getHashCode_iff⟩

end SameOverrides

/-! ### Main result -/

/-- **One diagnostic for each class that has one half of the pair.**  An analysis that is not
stopped shows a diagnostic of the rule for each class with an identifier that is unpaired, at the
identifier and with the half that is there, and no other one of the rule; and two classes whose
overrides declare the same symbols, in whatever order and wherever the classes stand, are unpaired
in the same way or not at all. -/
theorem delivers_unpaired (e : Engine) (c : Compilation) {place : Nat}
    (h : e.InCharge c rule analyzer place) (hrunning : (e.analyze c).cancelled = false) :
    (∃ found, e.Delivers c rule Finds found) ∧
      ∀ model cls model' cls', SameOverrides model cls model' cls' →
        ∀ equals, Unpaired model' cls' equals ↔ Unpaired model cls equals := by
  refine ⟨h.exists_delivers (checks_analyzer c) ?_ hrunning, fun _ _ _ _ hsame _ =>
    hsame.unpaired_iff⟩
  intro u hu x _ d
  have hsymbols : u.symbols = c.symbols := by
    obtain ⟨source, -, rfl⟩ := List.mem_map.mp hu
    rfl
  rw [Finds, ← hsymbols, mem_check_iff]

/-- Of two classes one has `Equals` and `ToString`, in any order, and the other one has both
halves. -/
theorem delivers_unpaired_overridingClasses :
    let unconfigured : Engine := ⟨{}, builtinAnalyzers, [], false⟩
    let c := Engine.overridingClasses ⟨[(2, 4), (3, 5)], by simp⟩
    unconfigured.InCharge c rule analyzer 0 ∧ (unconfigured.analyze c).cancelled = false ∧
      (∃ found, unconfigured.Delivers c rule Finds found) ∧
      (unconfigured.analyze c).diagnostics.map (fun d => (d.location.file.text, d.span, d.payload))
        = [("a.cs", ⟨0, 1⟩, .pairedOverride true)] ∧
      ∀ (model : Model) equals, Unpaired model Engine.twoOverrides.top equals ↔
        Unpaired model (.node Engine.twoOverrides.top.label
          Engine.twoOverrides.top.children.reverse) equals := by
  intro unconfigured c
  have hcharge : unconfigured.InCharge c rule analyzer 0 :=
    Engine.inCharge_builtin rfl c rfl (List.mem_singleton_self rule)
  have hrunning : (unconfigured.analyze c).cancelled = false := by decide +kernel
  obtain ⟨hfound, hsame⟩ := delivers_unpaired unconfigured c hcharge hrunning
  refine ⟨hcharge, hrunning, hfound, ?_, ?_⟩
  · decide +kernel
  · intro model equals
    exact hsame _ _ _ _ (SameOverrides.of_perm (List.reverse_perm _).symm) equals

end EqualsHashCode

end TreeLint
