/-
TreeLint/Proofs/Symbol/Members.lean

Which symbols a table holds, and which of them it lists as members.

A list of symbols is decoded in one scan.  The table so far holds the symbols that
have been passed, so the place of the next one is the size of the table, and a step
fails exactly on a symbol that does not fit there (`findsFaults_decodeStep`).  The
whole scan refuses a list with the first such fault, and otherwise makes a table of
exactly these symbols (`toList_symbols_of_ofList`).

Symbols that are inserted are numbered anew, and may refer to anything.  Either way
the table holds the symbols of a list, each under its place
(`MadeOf.toList_symbols`).  Its index mirrors what it holds, so it lists under every
number the places of the symbols that have it as container (`MadeOf.tabulates`).
-/
import TreeLint.Proofs.Scan
import TreeLint.Proofs.Symbol.Table

namespace TreeLint

namespace SymbolTable

variable {t t' : SymbolTable} {symbols before : List Symbol} {s : Symbol} {e : SymbolError}
variable {count : Nat} {id container r : SymbolId}

/-! ### Symbols that fit -/

/-- The symbol may stand at a place in a list of `count` symbols: the place is its number, and what
it refers to is in the list. -/
structure Fits (count place : Nat) (s : Symbol) : Prop where
  id_eq : s.id = place
  container_lt : ∀ c, s.container = some c → c < count
  overridden_lt : ∀ r, s.overridden = some r → r < count

/-- The fault of a symbol that comes after those of `before` in a list of `count` symbols.  Its
number is looked at first, then its container, then the member it overrides. -/
inductive Faulty (count : Nat) (before : List Symbol) (s : Symbol) : SymbolError → Prop
  | number : s.id ≠ before.length → Faulty count before s (.misnumbered before.length s.id)
  | container {c : SymbolId} :
      s.id = before.length → s.container = some c → count ≤ c →
      Faulty count before s (.missingReference before.length c)
  | overridden {r : SymbolId} :
      s.id = before.length → (∀ c, s.container = some c → c < count) →
      s.overridden = some r → count ≤ r →
      Faulty count before s (.missingReference before.length r)

theorem forall_not_faulty_iff :
    (∀ e, ¬ Faulty count before s e) ↔ Fits count before.length s := by
  constructor
  · intro h
    have hid : s.id = before.length := by
      by_contra hid
      exact h _ (.number hid)
    have hcontainer : ∀ c, s.container = some c → c < count := by
      intro c hc
      by_contra hle
      exact h _ (.container hid hc (Nat.le_of_not_lt hle))
    refine ⟨hid, hcontainer, ?_⟩
    intro r hr
    by_contra hle
    exact h _ (.overridden hid hcontainer hr (Nat.le_of_not_lt hle))
  · rintro ⟨hid, hcontainer, hoverridden⟩ e he
    cases he with
    | number hne => exact hne hid
    | container _ hc hle => exact Nat.not_lt_of_le hle (hcontainer _ hc)
    | overridden _ _ hr hle => exact Nat.not_lt_of_le hle (hoverridden _ hr)

/-- A list is without fault if each symbol fits at its place. -/
theorem faultless_iff :
    Faultless (Faulty count) symbols ↔ ∀ i s, symbols[i]? = some s → Fits count i s := by
  constructor
  · intro h i s hs
    obtain ⟨hlt, rfl⟩ := List.getElem?_eq_some_iff.mp hs
    have hsplit : symbols = symbols.take i ++ symbols[i] :: symbols.drop (i + 1) := by
      rw [List.getElem_cons_drop, List.take_append_drop]
    have hfits := forall_not_faulty_iff.mp (h _ _ _ hsplit)
    rwa [List.length_take_of_le (Nat.le_of_lt hlt)] at hfits
  · rintro h before s after rfl
    refine forall_not_faulty_iff.mpr (h _ s ?_)
    rw [List.getElem?_append_right (Nat.le_refl _), Nat.sub_self, List.getElem?_cons_zero]

/-! ### Decoding -/

/-- One step of decoding. -/
def decodeStep (count : Nat) (t : SymbolTable) (s : Symbol) : Except SymbolError SymbolTable :=
  insertChecked count t [s]

theorem insertChecked_eq_foldlM (count : Nat) (t : SymbolTable) (symbols : List Symbol) :
    insertChecked count t symbols = symbols.foldlM (decodeStep count) t := by
  induction symbols generalizing t with
  | nil => rfl
  | cons s symbols ih =>
    rw [List.foldlM_cons, decodeStep, insertChecked, insertChecked]
    split
    · rfl
    · split
      · rfl
      · exact ih (t.insert s)

theorem danglingReference?_eq_some_iff :
    danglingReference? count s = some r ↔
      (s.container = some r ∧ count ≤ r) ∨
        (∀ c, s.container = some c → c < count) ∧ s.overridden = some r ∧ count ≤ r := by
  have hfirst : ∀ link : Option SymbolId, link.toList.find? (decide <| count ≤ ·) = some r ↔
      link = some r ∧ count ≤ r := by
    rintro (- | r')
    · simp
    · rw [Option.toList_some, List.find?_singleton, Option.ite_none_right_eq_some,
        decide_eq_true_eq, and_comm, Option.some.injEq]
      exact and_congr_right fun h => h ▸ Iff.rfl
  have hnone : s.container.toList.find? (decide <| count ≤ ·) = none ↔
      ∀ c, s.container = some c → c < count := by
    simp only [List.find?_eq_none, Option.mem_toList, decide_eq_true_eq, Nat.not_le]
  rw [danglingReference?, List.find?_append, Option.or_eq_some_iff, hfirst, hfirst, hnone]

/-- The fault of a symbol that has its number is its first reference that leads nowhere. -/
theorem faulty_iff_of_id_eq (hid : s.id = before.length) :
    Faulty count before s e ↔
      ∃ r, danglingReference? count s = some r ∧ e = .missingReference before.length r := by
  constructor
  · intro h
    cases h with
    | number hne => exact absurd hid hne
    | container _ hc hle => exact ⟨_, danglingReference?_eq_some_iff.mpr (.inl ⟨hc, hle⟩), rfl⟩
    | overridden _ hcontainer hr hle =>
      exact ⟨_, danglingReference?_eq_some_iff.mpr (.inr ⟨hcontainer, hr, hle⟩), rfl⟩
  · rintro ⟨r, hr, rfl⟩
    rcases danglingReference?_eq_some_iff.mp hr with ⟨hc, hle⟩ | ⟨hcontainer, hr, hle⟩
    · exact .container hid hc hle
    · exact .overridden hid hcontainer hr hle

/-- A step of decoding fails exactly on a faulty symbol. -/
theorem decodeStep_eq_error_iff :
    decodeStep count t s = .error e ↔ Faulty count t.symbols.toList s e := by
  have hsize : t.size = t.symbols.toList.length := Array.length_toList.symm
  rw [decodeStep, insertChecked, hsize]
  by_cases hid : s.id = t.symbols.toList.length
  · rw [if_neg (not_not.mpr hid), faulty_iff_of_id_eq hid]
    rcases danglingReference? count s with - | r
    · simp [insertChecked]
    · simp [eq_comm]
  · rw [if_pos hid, Except.error.injEq]
    constructor
    · rintro rfl
      exact .number hid
    · intro h
      cases h with
      | number _ => rfl
      | container hid' _ _ => exact absurd hid' hid
      | overridden hid' _ _ _ => exact absurd hid' hid

theorem toList_symbols_insert (t : SymbolTable) (s : Symbol) :
    (t.insert s).symbols.toList = t.symbols.toList ++ [{ s with id := t.size }] :=
  Array.toList_push

/-- A step of decoding puts the symbol behind those of the table. -/
theorem toList_symbols_of_decodeStep (h : decodeStep count t s = .ok t') :
    t'.symbols.toList = t.symbols.toList ++ [s] := by
  rw [decodeStep, insertChecked] at h
  split at h
  · cases h
  · rename_i hid
    split at h
    · cases h
    · obtain rfl := Except.ok.inj h
      -- the symbol has the number that it gets
      rw [toList_symbols_insert, ← not_not.mp hid]

/-- Decoding is a scan, in which the table so far has the symbols that have been passed. -/
theorem findsFaults_decodeStep (count : Nat) :
    FindsFaults (Faulty count) (fun before t => t.symbols.toList = before) (decodeStep count) where
  error := by
    rintro _ t rfl s e
    exact decodeStep_eq_error_iff
  ok := by
    rintro _ t rfl s t' h
    exact toList_symbols_of_decodeStep h

theorem exists_ofList_eq_ok_iff :
    (∃ t, ofList symbols = .ok t) ↔ ∀ i s, symbols[i]? = some s → Fits symbols.length i s := by
  rw [← faultless_iff]
  simp only [ofList, insertChecked_eq_foldlM]
  exact (findsFaults_decodeStep _).exists_foldlM_eq_ok_iff rfl

theorem ofList_eq_error_iff :
    ofList symbols = .error e ↔ FirstFault (Faulty symbols.length) symbols e := by
  rw [ofList, insertChecked_eq_foldlM]
  exact (findsFaults_decodeStep _).foldlM_eq_error_iff rfl

/-- A table has the symbols that it was decoded from. -/
theorem toList_symbols_of_ofList (h : ofList symbols = .ok t) : t.symbols.toList = symbols := by
  rw [ofList, insertChecked_eq_foldlM] at h
  have hstart : empty.symbols.toList = [] := rfl
  have hfold := (findsFaults_decodeStep symbols.length).foldlM hstart symbols
  rw [h] at hfold
  exact hfold.2

/-! ### Tables of a list -/

/-- The table is made of a list of symbols: it was decoded from the list, or symbols were inserted,
one by one, into the empty table or into one that was decoded. -/
inductive MadeOf : SymbolTable → List Symbol → Prop
  | empty : MadeOf .empty []
  | decoded {t : SymbolTable} {symbols : List Symbol} : ofList symbols = .ok t → MadeOf t symbols
  | insert {t : SymbolTable} {symbols : List Symbol} (s : Symbol) :
      MadeOf t symbols → MadeOf (t.insert s) (symbols ++ [s])

/-- Numbering the symbols of a table changes none of them. -/
theorem mapIdx_id (t : SymbolTable) :
    t.symbols.toList.mapIdx (fun i s => { s with id := i }) = t.symbols.toList := by
  rw [List.mapIdx_eq_iff]
  intro i
  cases hs : t.symbols.toList[i]? with
  | none => rfl
  | some s =>
    rw [Array.getElem?_toList] at hs
    rw [Option.map_some, ← id_eq_of_get?_eq_some hs]

/-- A table that is made of a list has the symbols of the list, each numbered by its place. -/
theorem MadeOf.toList_symbols (h : MadeOf t symbols) :
    t.symbols.toList = symbols.mapIdx fun i s => { s with id := i } := by
  induction h with
  | empty => rfl
  | @decoded t symbols h =>
    obtain rfl := toList_symbols_of_ofList h
    exact t.mapIdx_id.symm
  | @insert t symbols s _ ih =>
    have hsize : t.size = symbols.length := by
      rw [size, ← Array.length_toList, ih, List.length_mapIdx]
    rw [toList_symbols_insert, ih, hsize, List.mapIdx_concat]

/-- The numbers listed under a container belong to the symbols that have it. -/
theorem mem_memberIds_iff :
    id ∈ t.memberIds container ↔ ∃ s, t.get? id = some s ∧ s.container = some container := by
  rw [memberIds, t.mirrors container, List.mem_map]
  simp only [List.mem_filter, beq_iff_eq]
  constructor
  · rintro ⟨s, ⟨hs, hcontainer⟩, rfl⟩
    exact ⟨s, get?_of_mem hs, hcontainer⟩
  · rintro ⟨s, hs, hcontainer⟩
    exact ⟨s, ⟨mem_of_get?_eq_some hs, hcontainer⟩, id_eq_of_get?_eq_some hs⟩

theorem pairwise_memberIds (t : SymbolTable) (container : SymbolId) :
    (t.memberIds container).Pairwise (· < ·) := by
  rw [memberIds, t.mirrors container, List.pairwise_map]
  exact t.pairwise_id.filter _

/-- Looking up the members loses none that is listed. -/
theorem map_id_members (t : SymbolTable) (container : SymbolId) :
    (t.members container).map (·.id) = t.memberIds container := by
  rw [members_eq_filter, memberIds, t.mirrors container]

/-- The table holds the symbols of the list, each numbered by its place, and lists under every
number, be there a symbol of that number or not, the places of the symbols that have it as
container. -/
structure Tabulates (t : SymbolTable) (symbols : List Symbol) : Prop where
  get?_eq : ∀ i, t.get? i = symbols[i]?.map fun s => { s with id := i }
  ordered : ∀ c, (t.memberIds c).Pairwise (· < ·)
  mem_iff : ∀ c i, i ∈ t.memberIds c ↔ ∃ s, symbols[i]? = some s ∧ s.container = some c
  members_eq : ∀ c, (t.members c).map (·.id) = t.memberIds c

theorem MadeOf.tabulates (h : MadeOf t symbols) : t.Tabulates symbols where
  get?_eq i := by
    rw [get?, ← Array.getElem?_toList, h.toList_symbols, List.getElem?_mapIdx]
  ordered := t.pairwise_memberIds
  mem_iff c i := by
    rw [mem_memberIds_iff, get?, ← Array.getElem?_toList, h.toList_symbols, List.getElem?_mapIdx]
    simp
  members_eq := t.map_id_members

/-- **Tables mirror their lists.**  A list of symbols is decoded exactly if each symbol fits at its
place, and is refused with its first fault otherwise.  A table that is made of a list, decoded or
inserted, numbers the symbols by their places and lists under every number, in increasing order,
the places of its members.  The list is meant to have at most `2 ^ 32` symbols, as their numbers
have 32 bits. -/
theorem ofList_fits_tabulates (symbols : List Symbol) :
    ((∃ t, ofList symbols = .ok t) ↔
        ∀ i s, symbols[i]? = some s → Fits symbols.length i s) ∧
      (∀ e, ofList symbols = .error e ↔ FirstFault (Faulty symbols.length) symbols e) ∧
      ∀ t, MadeOf t symbols → t.Tabulates symbols :=
  ⟨exists_ofList_eq_ok_iff, fun _ => ofList_eq_error_iff, fun _ h => h.tabulates⟩

/-- A method that is declared before its class. -/
def methodFirst : List Symbol :=
  [{ id := 0, name := "Equals", kind := .method, container := some 1 },
    { id := 1, name := "Point", kind := .namedType, typeKind := some .classType }]

/-- A property of a class that is not there, under a number that is not its own. -/
def strayProperty : Symbol := { id := 7, name := "Hue", kind := .property, container := some 9 }

/-- The class has its member, and so has the class that is not there. -/
theorem ofList_fits_tabulates_methodFirst :
    ∃ t, ofList methodFirst = .ok t ∧
      MadeOf (t.insert strayProperty) (methodFirst ++ [strayProperty]) ∧
      (t.insert strayProperty).get? 2 = some { strayProperty with id := 2 } ∧
      0 ∈ (t.insert strayProperty).memberIds 1 ∧ 2 ∈ (t.insert strayProperty).memberIds 9 := by
  have hfits : ∀ i s, methodFirst[i]? = some s → Fits 2 i s := by
    intro i s hs
    match i, hs with
    | 0, rfl => exact ⟨rfl, fun _ h => Option.some.inj h ▸ Nat.lt_succ_self 1, nofun⟩
    | 1, rfl => exact ⟨rfl, nofun, nofun⟩
  obtain ⟨t, ht⟩ := (ofList_fits_tabulates methodFirst).1.mpr hfits
  have hmade : MadeOf (t.insert strayProperty) (methodFirst ++ [strayProperty]) :=
    .insert strayProperty (.decoded ht)
  have htabulates := (ofList_fits_tabulates (methodFirst ++ [strayProperty])).2.2 _ hmade
  exact ⟨t, ht, hmade, htabulates.get?_eq 2, (htabulates.mem_iff 1 0).mpr ⟨_, rfl, rfl⟩,
    (htabulates.mem_iff 9 2).mpr ⟨_, rfl, rfl⟩⟩

-- the container is looked at before the overridden member, and the first symbol before the second
example :
    let lost : Symbol := { id := 0, name := "M", kind := .method, container := some 9 }
    let misnumbered : Symbol := { id := 5, name := "N", kind := .method }
    (ofList [lost.overriding (some 8), misnumbered]).mapError SymbolError.message
      = .error "symbol 0 refers to missing symbol 9" := by
  rfl

end SymbolTable

end TreeLint
