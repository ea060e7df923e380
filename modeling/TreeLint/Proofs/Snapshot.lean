/-
TreeLint/Proofs/Snapshot.lean

Snapshots: what was read, written and read again, is the same.

Only the tables, the symbols and the bindings are written; parents, spans and
the order of binding maps are found again on reading.  Every part of a
compilation that was read returns, from tokens and slots up to units, and what
is found again is determined by what is written: a tree by its table and root
(`Tree.ofSlots_slots`), a symbol table by its symbols
(`SymbolTable.toList_symbols_of_ofList`), a binding map by its entries
(`NodeMap.ofList_entries`).
-/
import TreeLint.Proofs.Json.Records
import TreeLint.Proofs.Symbol.Members
import TreeLint.Proofs.Tree.Table
import TreeLint.Snapshot

namespace TreeLint

open Json

/-! ### Trees -/

namespace Token

/-- The fields of a token; empty trivia is left out. -/
def fields (t : Token) : List (String × Option Json) :=
  [("text", some (.string t.text)),
    ("leading_trivia", if t.trivia.isEmpty then none else some (.string t.trivia))]

theorem write_eq (t : Token) : t.write = ofFields (present t.fields) := by
  rw [write, fields, present]
  split <;> rfl

theorem laid (t : Token) : Laid ["text", "leading_trivia"] t.fields where
  names_eq := rfl
  nodup := by decide
  verbatim := by decide
  plain := List.forall_mem_cons.mpr ⟨fun _ => isPlain_of_mem_some rfl,
    List.forall_mem_singleton.mpr fun _ => isPlain_of_mem_ite rfl⟩

theorem returns (t : Token) : Returns read? write t := by
  have htext := Record.required_present t.laid "text" rfl (returns_asString? t.text)
  have htrivia := Record.defaulted_present t.laid "leading_trivia" "" rfl
    (ite_eq_some_or_eq_none String.isEmpty_iff.mp) (returns_asString? t.trivia)
  refine ⟨?_, t.write_eq ▸ t.laid.isPlain⟩
  rw [write_eq, read?, t.laid.asRecord?_eq]
  simp only [Option.bind_eq_bind, Option.bind_some, htext, htrivia]
  rfl

end Token

theorem NodeId.faithful : Faithful NodeId.read? nat := faithful_asNat? 32

namespace Slot

/-- The fields of a slot; an empty list of children and an absent token are left out. -/
def fields (s : Slot) : List (String × Option Json) :=
  [("kind", some (Named.write s.kind)),
    ("children", if s.children.isEmpty then none else some (Json.ofList .nat s.children)),
    ("token", s.token.map Token.write)]

theorem write_eq (s : Slot) : s.write = ofFields (present s.fields) := by
  rw [write, fields, present]
  rcases s.token with - | t <;> split <;> rfl

theorem faithful : Faithful read? write := by
  intro v s h
  simp only [read?, Option.bind_eq_bind, Option.bind_eq_some_iff] at h
  obtain ⟨r, -, kind, hkind, children, hchildren, token, -, heq⟩ := h
  obtain rfl := Option.some.inj heq
  have hkind := Record.returns_of_required faithful_named hkind
  have hchildren := Record.returns_of_defaulted NodeId.faithful.asList? ⟨rfl, rfl⟩ hchildren
  have hlaid : Laid ["kind", "children", "token"] (fields ⟨kind, children, token⟩) :=
    { names_eq := rfl
      nodup := by decide
      verbatim := by decide
      plain := List.forall_mem_cons.mpr ⟨fun _ => isPlain_of_mem_some rfl,
        List.forall_mem_cons.mpr ⟨fun _ => isPlain_of_mem_ite hchildren.isPlain,
          List.forall_mem_singleton.mpr fun _ => isPlain_of_mem_map fun t _ => t.returns⟩⟩ }
  have hkind' := Record.required_present hlaid "kind" rfl hkind
  have hchildren' := Record.defaulted_present hlaid "children" [] rfl
    (ite_eq_some_or_eq_none List.isEmpty_iff.mp) hchildren
  have htoken' := Record.optional_present hlaid "token" rfl (fun t _ => t.returns)
    (fun t h => by cases h)
  refine ⟨?_, write_eq _ ▸ hlaid.isPlain⟩
  rw [write_eq, read?, hlaid.asRecord?_eq]
  simp only [Option.bind_eq_bind, Option.bind_some, hkind', hchildren', htoken']
  rfl

theorem lt_of_read? {v : Json} {s : Slot} (h : read? v = some s) :
    ∀ c ∈ s.children, c < 2 ^ 32 := by
  simp only [read?, Option.bind_eq_bind, Option.bind_eq_some_iff] at h
  obtain ⟨r, -, kind, -, children, hchildren, token, -, heq⟩ := h
  obtain rfl := Option.some.inj heq
  intro c hc
  have hreturns := Record.returns_of_defaulted NodeId.faithful.asList? ⟨rfl, rfl⟩ hchildren
  obtain ⟨w, -, hw⟩ := exists_of_mem_of_mapM_eq_some hreturns.read_write hc
  exact lt_of_asNat?_eq_some hw

end Slot

namespace Tree

/-- The table and the root of a tree. -/
def fields (t : Tree) : List (String × Option Json) :=
  [("root", some (.nat t.root)), ("nodes", some (Json.ofList Slot.write t.slots.toList))]

/-- A tree that was read is read again from what is written of it. -/
theorem readBack_of_read {v : Json} {t : Tree} (h : read v = .ok t) : ReadBack read write t := by
  rw [read] at h
  split at h
  · cases h
  · rename_i slots root hparts
    obtain ⟨rfl, rfl⟩ := slots_of_ofSlots (eq_ok_of_mapError_eq_ok h)
    simp only [readParts?, Option.bind_eq_bind, Option.bind_eq_some_iff] at hparts
    obtain ⟨r, -, root, hroot, nodes, hnodes, heq⟩ := hparts
    obtain ⟨hnodesEq, hrootEq⟩ := Prod.mk.inj (Option.some.inj heq)
    have hroot := Record.returns_of_required NodeId.faithful hroot
    have hnodes := Record.returns_of_required Slot.faithful.asList? hnodes
    rw [hrootEq] at hroot
    obtain rfl : nodes = t.slots.toList := by rw [← hnodesEq]
    have hlaid : Laid ["root", "nodes"] t.fields :=
      { names_eq := rfl
        nodup := by decide
        verbatim := by decide
        plain := List.forall_mem_cons.mpr ⟨fun _ => isPlain_of_mem_some rfl,
          List.forall_mem_singleton.mpr fun _ => isPlain_of_mem_some hnodes.isPlain⟩ }
    have hroot' := Record.required_present hlaid "root" rfl hroot
    have hnodes' := Record.required_present hlaid "nodes" rfl hnodes
    have hwritten : readParts? t.write = some (t.slots, t.root) := by
      show readParts? (ofFields (present t.fields)) = _
      rw [readParts?, hlaid.asRecord?_eq]
      simp only [Option.bind_eq_bind, Option.bind_some, hroot', hnodes']
      rfl
    refine ⟨?_, hlaid.isPlain⟩
    rw [read, hwritten]
    show (ofSlots t.slots t.root).mapError _ = _
    rw [ofSlots_slots]
    rfl

/-- A tree that was read refers to its slots by numbers of 32 bits. -/
theorem lt_of_read {v : Json} {t : Tree} (h : read v = .ok t) :
    t.root < 2 ^ 32 ∧ ∀ s ∈ t.slots, ∀ c ∈ s.children, c < 2 ^ 32 := by
  rw [read] at h
  split at h
  · cases h
  · rename_i slots root hparts
    obtain ⟨rfl, rfl⟩ := slots_of_ofSlots (eq_ok_of_mapError_eq_ok h)
    simp only [readParts?, Option.bind_eq_bind, Option.bind_eq_some_iff] at hparts
    obtain ⟨r, -, root, hroot, nodes, hnodes, heq⟩ := hparts
    obtain ⟨hnodesEq, hrootEq⟩ := Prod.mk.inj (Option.some.inj heq)
    constructor
    · have hreturns := Record.returns_of_required NodeId.faithful hroot
      exact hrootEq ▸ lt_of_asNat?_eq_some hreturns.read_write
    · intro s hs
      have hreturns := Record.returns_of_required Slot.faithful.asList? hnodes
      rw [← hnodesEq, List.mem_toArray] at hs
      obtain ⟨w, -, hw⟩ := exists_of_mem_of_mapM_eq_some hreturns.read_write hs
      exact Slot.lt_of_read? hw

end Tree

/-! ### Symbols -/

namespace Symbol

theorem faithful_readId? : Faithful readId? nat := faithful_asNat? 32

/-- The fields of a symbol; optional ones that are absent are left out. -/
def fields (s : Symbol) : List (String × Option Json) :=
  [("id", some (.nat s.id)), ("name", some (.string s.name)),
    ("kind", some (Named.write s.kind)), ("type_kind", s.typeKind.map Named.write),
    ("container", s.container.map .nat), ("parameter_count", some (.nat s.parameterCount)),
    ("is_override", some (.bool s.isOverride)), ("overridden", s.overridden.map .nat),
    ("implicitly_declared", some (.bool s.implicitlyDeclared)),
    ("special", s.special.map Named.write)]

theorem write_eq (s : Symbol) : s.write = ofFields (present s.fields) := by
  rw [write, fields, present]
  rcases s.typeKind with - | _ <;> rcases s.container with - | _ <;>
    rcases s.overridden with - | _ <;> rcases s.special with - | _ <;> rfl

/-- The parts of a symbol that are not of any size or name return. -/
structure PartsReturn (s : Symbol) : Prop where
  id : Returns readId? nat s.id
  kind : Returns Named.read? Named.write s.kind
  typeKind : ∀ k ∈ s.typeKind, Returns Named.read? Named.write k
  container : ∀ c ∈ s.container, Returns readId? nat c
  parameterCount : Returns (asNat? 64) nat s.parameterCount
  overridden : ∀ o ∈ s.overridden, Returns readId? nat o
  special : ∀ k ∈ s.special, Returns Named.read? Named.write k

theorem partsReturn_of_read? {v : Json} {s : Symbol} (h : read? v = some s) : s.PartsReturn := by
  obtain ⟨r, -, h⟩ := Option.bind_eq_some_iff.mp h
  obtain ⟨id, hid, h⟩ := Option.bind_eq_some_iff.mp h
  obtain ⟨name, -, h⟩ := Option.bind_eq_some_iff.mp h
  obtain ⟨kind, hkind, h⟩ := Option.bind_eq_some_iff.mp h
  obtain ⟨typeKind, htypeKind, h⟩ := Option.bind_eq_some_iff.mp h
  obtain ⟨container, hcontainer, h⟩ := Option.bind_eq_some_iff.mp h
  obtain ⟨parameterCount, hparameterCount, h⟩ := Option.bind_eq_some_iff.mp h
  obtain ⟨isOverride, -, h⟩ := Option.bind_eq_some_iff.mp h
  obtain ⟨overridden, hoverridden, h⟩ := Option.bind_eq_some_iff.mp h
  obtain ⟨implicitlyDeclared, -, h⟩ := Option.bind_eq_some_iff.mp h
  obtain ⟨special, hspecial, h⟩ := Option.bind_eq_some_iff.mp h
  obtain rfl := Option.some.inj h
  exact
    { id := Record.returns_of_required faithful_readId? hid
      kind := Record.returns_of_required faithful_named hkind
      typeKind := Record.returns_of_optional faithful_named htypeKind
      container := Record.returns_of_optional faithful_readId? hcontainer
      parameterCount := Record.returns_of_defaulted (faithful_asNat? 64) ⟨rfl, rfl⟩ hparameterCount
      overridden := Record.returns_of_optional faithful_readId? hoverridden
      special := Record.returns_of_optional faithful_named hspecial }

theorem PartsReturn.laid {s : Symbol} (h : s.PartsReturn) :
    Laid ["id", "name", "kind", "type_kind", "container", "parameter_count", "is_override",
      "overridden", "implicitly_declared", "special"] s.fields where
  names_eq := rfl
  nodup := by decide
  verbatim := by decide
  plain := by
    simp only [fields, List.forall_mem_cons]
    exact ⟨fun _ => isPlain_of_mem_some rfl, fun _ => isPlain_of_mem_some rfl,
      fun _ => isPlain_of_mem_some rfl, fun _ => isPlain_of_mem_map h.typeKind,
      fun _ => isPlain_of_mem_map h.container, fun _ => isPlain_of_mem_some rfl,
      fun _ => isPlain_of_mem_some rfl, fun _ => isPlain_of_mem_map h.overridden,
      fun _ => isPlain_of_mem_some rfl, fun _ => isPlain_of_mem_map h.special,
      List.forall_mem_nil _⟩

theorem PartsReturn.returns {s : Symbol} (h : s.PartsReturn) : Returns read? write s where
  isPlain := s.write_eq ▸ h.laid.isPlain
  read_write := by
    rw [write_eq]
    -- field by field, in the order of the reader
    refine Option.bind_eq_some_iff.mpr ⟨_, h.laid.asRecord?_eq, ?_⟩
    refine Option.bind_eq_some_iff.mpr ⟨_, Record.required_present h.laid "id" rfl h.id, ?_⟩
    refine Option.bind_eq_some_iff.mpr
      ⟨_, Record.required_present h.laid "name" rfl (returns_asString? s.name), ?_⟩
    refine Option.bind_eq_some_iff.mpr ⟨_, Record.required_present h.laid "kind" rfl h.kind, ?_⟩
    refine Option.bind_eq_some_iff.mpr
      ⟨_, Record.optional_present h.laid "type_kind" rfl h.typeKind (fun _ h => by cases h), ?_⟩
    refine Option.bind_eq_some_iff.mpr
      ⟨_, Record.optional_present h.laid "container" rfl h.container (fun _ h => by cases h), ?_⟩
    refine Option.bind_eq_some_iff.mpr
      ⟨_, Record.defaulted_present h.laid "parameter_count" 0 rfl (.inl rfl) h.parameterCount, ?_⟩
    refine Option.bind_eq_some_iff.mpr ⟨_, Record.defaulted_present h.laid "is_override" false rfl
      (.inl rfl) (returns_asBool? s.isOverride), ?_⟩
    refine Option.bind_eq_some_iff.mpr
      ⟨_, Record.optional_present h.laid "overridden" rfl h.overridden (fun _ h => by cases h), ?_⟩
    refine Option.bind_eq_some_iff.mpr ⟨_, Record.defaulted_present h.laid "implicitly_declared"
      false rfl (.inl rfl) (returns_asBool? s.implicitlyDeclared), ?_⟩
    refine Option.bind_eq_some_iff.mpr
      ⟨_, Record.optional_present h.laid "special" rfl h.special (fun _ h => by cases h), ?_⟩
    rfl

theorem faithful : Faithful read? write := fun _ _ h => (partsReturn_of_read? h).returns

end Symbol

namespace SymbolTable

theorem readBack_empty : ReadBack read write empty := ⟨rfl, rfl⟩

/-- A table that was read is read again from what is written of it. -/
theorem readBack_of_read {v : Json} {t : SymbolTable} (h : read v = .ok t) :
    ReadBack read write t := by
  rw [read] at h
  split at h
  · cases h
  · rename_i symbols hsymbols
    have htable := eq_ok_of_mapError_eq_ok h
    have hreturns := Symbol.faithful.asList? v symbols hsymbols
    obtain rfl := toList_symbols_of_ofList htable
    refine ⟨?_, hreturns.isPlain⟩
    rw [read, write, hreturns.read_write]
    show (ofList t.symbols.toList).mapError _ = _
    rw [htable]
    rfl

/-- A table that was read has no more symbols than there are numbers of 32 bits: each symbol was
read with its number. -/
theorem size_le_of_read {v : Json} {t : SymbolTable} (h : read v = .ok t) : t.size ≤ 2 ^ 32 := by
  rw [read] at h
  split at h
  · cases h
  · rename_i symbols hsymbols
    obtain rfl := toList_symbols_of_ofList (eq_ok_of_mapError_eq_ok h)
    have hreturns := Symbol.faithful.asList? v _ hsymbols
    have hlt (i : Nat) (hi : i < t.symbols.size) : i < 2 ^ 32 := by
      have hmem : t.symbols[i] ∈ t.symbols.toList :=
        Array.mem_toList_iff.mpr (Array.getElem_mem hi)
      obtain ⟨w, -, hw⟩ := exists_of_mem_of_mapM_eq_some hreturns.read_write hmem
      have hid := (Symbol.partsReturn_of_read? hw).id
      rw [t.id_eq i hi] at hid
      exact lt_of_asNat?_eq_some hid.read_write
    by_contra hsize
    exact Nat.lt_irrefl _ (hlt (2 ^ 32) (Nat.lt_of_not_le hsize))

end SymbolTable

/-! ### Bindings -/

namespace NodeMap

theorem put_eq_append {entries : List (NodeId × SymbolId)} {node : NodeId} (symbol : SymbolId)
    (h : ∀ e ∈ entries, e.1 < node) : put node symbol entries = entries ++ [(node, symbol)] := by
  induction entries with
  | nil => rfl
  | cons e entries ih =>
    have he := h e List.mem_cons_self
    rw [put, if_neg (Nat.lt_asymm he), if_neg (Nat.ne_of_gt he),
      ih fun x hx => h x (List.mem_cons_of_mem e hx)]
    rfl

theorem eq_of_entries_eq {m m' : NodeMap} (h : m.entries = m'.entries) : m = m' := by
  obtain ⟨entries, _⟩ := m
  obtain ⟨entries', _⟩ := m'
  obtain rfl : entries = entries' := h
  rfl

/-- Entries that come in order are put at the end. -/
theorem entries_foldl_insert (m : NodeMap) (entries : List (NodeId × SymbolId))
    (h : (m.entries ++ entries).Pairwise fun a b => a.1 < b.1) :
    (entries.foldl (fun m e => m.insert e.1 e.2) m).entries = m.entries ++ entries := by
  induction entries generalizing m with
  | nil => exact (List.append_nil _).symm
  | cons e entries ih =>
    have hinsert : (m.insert e.1 e.2).entries = m.entries ++ [e] := by
      apply put_eq_append
      intro x hx
      exact (List.pairwise_append.mp h).2.2 x hx e List.mem_cons_self
    rw [List.append_cons, ← hinsert] at h ⊢
    exact ih (m.insert e.1 e.2) h

/-- A map is determined by its entries. -/
theorem ofList_entries (m : NodeMap) : ofList m.entries = m :=
  eq_of_entries_eq (entries_foldl_insert empty m.entries m.sorted)

theorem mem_of_mem_foldl_insert {entries : List (NodeId × SymbolId)} {m : NodeMap}
    {x : NodeId × SymbolId} (h : x ∈ (entries.foldl (fun m e => m.insert e.1 e.2) m).entries) :
    x ∈ m.entries ∨ x ∈ entries := by
  induction entries generalizing m with
  | nil => exact .inl h
  | cons e entries ih =>
    rcases ih h with h | h
    · rcases mem_put h with rfl | h
      · exact .inr List.mem_cons_self
      · exact .inl h
    · exact .inr (List.mem_cons_of_mem e h)

/-- A map has no entries but those that it was made of. -/
theorem mem_of_mem_ofList {entries : List (NodeId × SymbolId)} {x : NodeId × SymbolId}
    (h : x ∈ (ofList entries).entries) : x ∈ entries :=
  (mem_of_mem_foldl_insert h).resolve_left List.not_mem_nil

/-- A slot number is named by its digits. -/
theorem slot?_toString {n : Nat} (h : Returns NodeId.read? nat n) :
    slot? (.plain (toString n)) = some n := by
  have hwhole := wholePart?_toDigits n ends_nil
  rw [List.append_nil] at hwhole
  rw [slot?, toList_toString, hwhole]
  simp only [natOfDigits_toDigits]
  exact h.read_write

theorem slot?_returns {key : Key} {n : NodeId} (h : slot? key = some n) :
    Returns NodeId.read? nat n := by
  cases key with
  | plain text =>
    rw [slot?] at h
    split at h
    · exact NodeId.faithful _ n h
    · cases h
  | escaped text => cases h
  | garbled => cases h

theorem returns_of_forall {m : NodeMap} (h : ∀ e ∈ m.entries,
    Returns NodeId.read? nat e.1 ∧ Returns Symbol.readId? nat e.2) : Returns read? write m where
  read_write := by
    have hentries : asEntries? slot? Symbol.readId? m.write = some m.entries := by
      rw [write, ofFields, List.map_map, asEntries?]
      apply mapM_map_eq_some
      rintro ⟨node, symbol⟩ he
      obtain ⟨hnode, hsymbol⟩ := h _ he
      show (do return (← slot? (.plain (toString node)), ← Symbol.readId? (.nat symbol))) = _
      rw [slot?_toString hnode, hsymbol.read_write]
      rfl
    rw [read?, hentries, Option.map_some, ofList_entries]
  isPlain := by
    apply isPlain_ofFields
    intro f hf
    obtain ⟨e, -, rfl⟩ := List.mem_map.mp hf
    exact ⟨isVerbatim_toString e.1, rfl⟩

theorem faithful : Faithful read? write := by
  intro v m h
  obtain ⟨entries, hentries, rfl⟩ := Option.map_eq_some_iff.mp h
  refine returns_of_forall fun e he => ?_
  cases v with
  | object fields =>
    obtain ⟨f, -, hf⟩ := exists_of_mem_of_mapM_eq_some hentries (mem_of_mem_ofList he)
    simp only [Option.bind_eq_bind, Option.bind_eq_some_iff] at hf
    obtain ⟨node, hnode, symbol, hsymbol, heq⟩ := hf
    obtain rfl := Option.some.inj heq
    exact ⟨slot?_returns hnode, Symbol.faithful_readId? _ symbol hsymbol⟩
  | _ => cases hentries

theorem returns_empty : Returns read? write empty :=
  returns_of_forall (List.forall_mem_nil _)

end NodeMap

namespace Bindings

/-- The maps of the bindings; empty ones are left out. -/
def fields (b : Bindings) : List (String × Option Json) :=
  [("declared", if b.declared.entries.isEmpty then none else some b.declared.write),
    ("referenced", if b.referenced.entries.isEmpty then none else some b.referenced.write),
    ("types", if b.types.entries.isEmpty then none else some b.types.write)]

theorem write_eq (b : Bindings) : b.write = ofFields (present b.fields) := by
  have hentry : ∀ f : String × NodeMap,
      (if f.2.entries.isEmpty then none else some (f.1, f.2.write))
        = (if f.2.entries.isEmpty then none else some f.2.write).map fun v => (f.1, v) := by
    intro f
    split <;> rfl
  simp only [write, hentry]
  rfl

theorem returns_of_maps {b : Bindings} (hdeclared : Returns NodeMap.read? NodeMap.write b.declared)
    (hreferenced : Returns NodeMap.read? NodeMap.write b.referenced)
    (htypes : Returns NodeMap.read? NodeMap.write b.types) : Returns read? write b := by
  have hlaid : Laid ["declared", "referenced", "types"] b.fields :=
    { names_eq := rfl
      nodup := by decide
      verbatim := by decide
      plain := by
        simp only [fields, List.forall_mem_cons]
        exact ⟨fun _ => isPlain_of_mem_ite hdeclared.isPlain,
          fun _ => isPlain_of_mem_ite hreferenced.isPlain,
          fun _ => isPlain_of_mem_ite htypes.isPlain, List.forall_mem_nil _⟩ }
  have hempty : ∀ {m : NodeMap}, m.entries.isEmpty = true → m = .empty := fun h =>
    NodeMap.eq_of_entries_eq (List.isEmpty_iff.mp h)
  refine ⟨?_, write_eq _ ▸ hlaid.isPlain⟩
  rw [write_eq, read?, hlaid.asRecord?_eq]
  simp only [Option.bind_eq_bind, Option.bind_some,
    Record.defaulted_present hlaid "declared" .empty rfl (ite_eq_some_or_eq_none hempty) hdeclared,
    Record.defaulted_present hlaid "referenced" .empty rfl (ite_eq_some_or_eq_none hempty)
      hreferenced,
    Record.defaulted_present hlaid "types" .empty rfl (ite_eq_some_or_eq_none hempty) htypes]
  rfl

theorem returns_default : Returns read? write {} :=
  returns_of_maps NodeMap.returns_empty NodeMap.returns_empty NodeMap.returns_empty

theorem faithful : Faithful read? write := by
  intro v b h
  simp only [read?, Option.bind_eq_bind, Option.bind_eq_some_iff] at h
  obtain ⟨r, -, declared, hdeclared, referenced, hreferenced, types, htypes, heq⟩ := h
  obtain rfl := Option.some.inj heq
  exact returns_of_maps
    (Record.returns_of_defaulted NodeMap.faithful NodeMap.returns_empty hdeclared)
    (Record.returns_of_defaulted NodeMap.faithful NodeMap.returns_empty hreferenced)
    (Record.returns_of_defaulted NodeMap.faithful NodeMap.returns_empty htypes)

end Bindings

/-! ### Units and compilations -/

namespace SourceUnit

/-- What has been read of a unit so far is read back. -/
structure Draft.PartsReadBack (d : Draft) : Prop where
  tree : ∀ t ∈ d.tree, ReadBack Tree.read Tree.write t
  bindings : Returns Bindings.read? Bindings.write d.bindings

theorem Draft.PartsReadBack.of_readField {d d' : Draft} {name : String} {v : Json}
    (hd : d.PartsReadBack) (h : readField d name v = .ok d') : d'.PartsReadBack := by
  unfold readField at h
  split at h
  · obtain ⟨path, -, rfl⟩ := exists_of_map_eq_ok h
    exact ⟨hd.tree, hd.bindings⟩
  · obtain ⟨tree, htree, rfl⟩ := exists_of_map_eq_ok h
    exact ⟨fun t ht => Option.some.inj ht ▸ Tree.readBack_of_read htree, hd.bindings⟩
  · obtain ⟨bindings, hbindings, rfl⟩ := exists_of_map_eq_ok h
    refine ⟨hd.tree, ?_⟩
    rcases hread : Bindings.read? v with - | b
    · rw [hread] at hbindings
      cases hbindings
    · rw [hread] at hbindings
      exact Except.ok.inj hbindings ▸ Bindings.faithful v b hread
  · obtain ⟨generated, -, rfl⟩ := exists_of_map_eq_ok h
    exact ⟨hd.tree, hd.bindings⟩

/-- A unit whose tree and bindings are read back is read back. -/
theorem readBack_of_parts {u : SourceUnit} (htree : ReadBack Tree.read Tree.write u.tree)
    (hbindings : Returns Bindings.read? Bindings.write u.bindings) : ReadBack read write u := by
  constructor
  · have hpath : readField {} "path" (.string u.path.text) = .ok { path := some u.path } := rfl
    have htree' : readField { path := some u.path } "tree" u.tree.write
        = .ok { path := some u.path, tree := some u.tree } := by
      show (Tree.read u.tree.write).map _ = _
      rw [htree.read_write]
      rfl
    have hbindings' : readField { path := some u.path, tree := some u.tree } "bindings"
        u.bindings.write
          = .ok { path := some u.path, tree := some u.tree, bindings := u.bindings } := by
      show (SnapshotError.ofOption (Bindings.read? u.bindings.write)).map _ = _
      rw [hbindings.read_write]
      rfl
    rw [read, write]
    simp only [foldRecord, ofFields, List.map_cons, List.map_nil]
    rw [foldFields_cons rfl rfl hpath, foldFields_cons rfl rfl htree',
      foldFields_cons rfl rfl hbindings', foldFields_cons rfl rfl rfl]
    rfl
  · apply isPlain_ofFields
    simp only [List.forall_mem_cons]
    exact ⟨⟨by decide, rfl⟩, ⟨by decide, htree.isPlain⟩, ⟨by decide, hbindings.isPlain⟩,
      ⟨by decide, rfl⟩, List.forall_mem_nil _⟩

theorem readBack_of_read {v : Json} {u : SourceUnit} (h : read v = .ok u) :
    ReadBack read write u := by
  have hdefault : Draft.PartsReadBack {} := ⟨fun t ht => (by cases ht), Bindings.returns_default⟩
  rw [read] at h
  split at h
  · cases h
  · rename_i path tree bindings generated hrecord
    obtain rfl := Except.ok.inj h
    have hdraft := of_foldRecord_eq_ok (P := Draft.PartsReadBack)
      (fun _ _ _ _ hd h => hd.of_readField h) hrecord hdefault
    exact readBack_of_parts (hdraft.tree tree rfl) hdraft.bindings
  · cases h

end SourceUnit

namespace Compilation

/-- What has been read of a compilation so far is read back. -/
structure PartsReadBack (c : Compilation) : Prop where
  symbols : ReadBack SymbolTable.read SymbolTable.write c.symbols
  units : ∀ u ∈ c.units, ReadBack SourceUnit.read SourceUnit.write u

theorem PartsReadBack.of_readField {c c' : Compilation} {name : String} {v : Json}
    (hc : c.PartsReadBack) (h : readField c name v = .ok c') : c'.PartsReadBack := by
  unfold readField at h
  split at h
  · obtain ⟨symbols, hsymbols, rfl⟩ := exists_of_map_eq_ok h
    exact ⟨SymbolTable.readBack_of_read hsymbols, hc.units⟩
  · obtain ⟨units, hunits, rfl⟩ := exists_of_map_eq_ok h
    refine ⟨hc.symbols, fun u hu => ?_⟩
    cases v with
    | array items =>
      obtain ⟨item, -, hitem⟩ := exists_of_mem_of_mapM_eq_ok hunits hu
      exact SourceUnit.readBack_of_read hitem
    | _ => cases hunits

/-- A compilation whose symbols and units are read back is read back. -/
theorem readBack_of_parts {c : Compilation} (h : c.PartsReadBack) : ReadBack read write c := by
  constructor
  · have hsymbols : readField {} "symbols" c.symbols.write = .ok { symbols := c.symbols } := by
      show (SymbolTable.read c.symbols.write).map _ = _
      rw [h.symbols.read_write]
      rfl
    have hunits : readField { symbols := c.symbols } "units"
        (Json.ofList SourceUnit.write c.units) = .ok c := by
      show ((c.units.map SourceUnit.write).mapM SourceUnit.read).map _ = _
      rw [mapM_map_eq_ok fun u hu => (h.units u hu).read_write]
      rfl
    rw [read, write]
    simp only [foldRecord, ofFields, List.map_cons, List.map_nil]
    rw [foldFields_cons rfl rfl hsymbols, foldFields_cons rfl rfl hunits]
    rfl
  · apply isPlain_ofFields
    simp only [List.forall_mem_cons]
    exact ⟨⟨by decide, h.symbols.isPlain⟩,
      ⟨by decide, isPlain_ofList fun u hu => (h.units u hu).isPlain⟩, List.forall_mem_nil _⟩

theorem partsReadBack_of_read {v : Json} {c : Compilation} (h : read v = .ok c) :
    c.PartsReadBack :=
  of_foldRecord_eq_ok (P := PartsReadBack) (fun _ _ _ _ hc h => hc.of_readField h) h
    ⟨SymbolTable.readBack_empty, List.forall_mem_nil _⟩

/-- **Snapshots keep everything.**  A compilation that was read from a value is read again, in all
its fields, from the value that it is written as, and from the text that it is written as; so
writing what was read from a written snapshot gives the same snapshot. -/
theorem read_write_of_read {v : Json} {c : Compilation} (h : read v = .ok c) :
    read c.write = .ok c ∧ ofText c.toText = .ok c ∧
      (read c.write).map write = .ok c.write ∧ (ofText c.toText).map toText = .ok c.toText := by
  obtain ⟨hread, hplain⟩ := readBack_of_parts (partsReadBack_of_read h)
  have htext : ofText c.toText = .ok c := by
    rw [ofText, toText, parse_pretty hplain]
    simp only [hread]
    rfl
  refine ⟨hread, htext, ?_, ?_⟩
  · rw [hread]
    rfl
  · rw [htext]
    rfl

/-- A snapshot as another program may write it: the table of the first unit is given as a list and
has a slot that the root does not reach, the bindings are out of order and give a slot twice, and
there is a field that nobody knows. -/
def looseSnapshot : Json :=
  .ofFields [("symbols", .array [.ofFields [("kind", .string "named_type"), ("name", .string "P"),
      ("id", .nat 0)]]),
    ("comment", .number "-1.5e3"),
    ("units", .array [.ofFields [
      ("bindings", .ofFields [("declared", .ofFields [("2", .nat 7), ("1", .nat 0), ("2", .nat 0)])]),
      ("tree", .array [.nat 1, .array [
        .ofFields [("kind", .string "Block"), ("children", .array []), ("token", .null)],
        .ofFields [("kind", .string "ClassDeclaration"), ("children", .array [.nat 2])],
        .ofFields [("kind", .string "IdentifierToken"), ("token", .array [.string "P"])]]]),
      ("path", .string "a.cs")]])]

theorem read_write_of_read_looseSnapshot : ∃ c, read looseSnapshot = .ok c ∧
    c.units.map (·.bindings.declared.entries) = [[(1, 0), (2, 0)]] ∧
    read c.write = .ok c ∧ ofText c.toText = .ok c := by
  have h : read looseSnapshot = .ok _ := rfl
  exact ⟨_, h, rfl, (read_write_of_read h).1, (read_write_of_read h).2.1⟩

end Compilation

end TreeLint
