/-
TreeLint/Proofs/Json/Records.lean

Reading what was written, reader by reader.

A value *returns* if it is written as a plain value and read from that as it
was.  A reader is *faithful* to a writer if everything that it accepts returns.
It need not accept everything, and values that it never gives need not return:
a number that is too large for its reader, say.  So faithfulness is what passes
from the parts of a record to the record: whatever was read of it is made of
parts that were read.

Records are written as objects whose fields are some of the declared ones, in
the declared order; such an object is read field by field
(`asRecord?_ofFields`).
-/
import Mathlib.Algebra.Group.Nat.Defs
import TreeLint.Json.Reader
import TreeLint.Named
import TreeLint.Proofs.Json.Text

namespace TreeLint

namespace Json

variable {α β : Type}

/-! ### Plain values are whole -/

theorem isWhole_of_isPlain {v : Json} (h : v.isPlain) : v.isWhole := by
  induction v using Json.induction with
  | null => rfl
  | bool b => rfl
  | nat n => rfl
  | number s => rfl
  | string s => rfl
  | garbled => rfl
  | array items ih =>
    rw [isWhole]
    induction items with
    | nil => rfl
    | cons v vs ihvs =>
      rw [isPlain, arePlain, Bool.and_eq_true] at h
      rw [areWhole, Bool.and_eq_true]
      exact ⟨ih v List.mem_cons_self h.1,
        ihvs (fun w hw => ih w (List.mem_cons_of_mem v hw)) (by rw [isPlain]; exact h.2)⟩
  | object fields ih =>
    rw [isWhole]
    induction fields with
    | nil => rfl
    | cons f fs ihfs =>
      rw [isPlain, fieldsArePlain, Bool.and_eq_true, Bool.and_eq_true] at h
      rw [fieldsAreWhole, Bool.and_eq_true]
      exact ⟨ih f List.mem_cons_self h.1.2,
        ihfs (fun g hg => ih g (List.mem_cons_of_mem f hg)) (by rw [isPlain]; exact h.2)⟩
  | broken => cases h

theorem isPlain_ofList {f : α → Json} {items : List α} (h : ∀ a ∈ items, (f a).isPlain) :
    (ofList f items).isPlain := by
  rw [ofList, isPlain]
  induction items with
  | nil => rfl
  | cons a items ih =>
    rw [List.map_cons, arePlain, Bool.and_eq_true]
    exact ⟨h a List.mem_cons_self, ih fun b hb => h b (List.mem_cons_of_mem a hb)⟩

theorem isPlain_ofFields {fields : List (String × Json)}
    (h : ∀ f ∈ fields, isVerbatim f.1 ∧ f.2.isPlain) : (ofFields fields).isPlain := by
  rw [ofFields, isPlain]
  induction fields with
  | nil => rfl
  | cons f fields ih =>
    rw [List.map_cons, fieldsArePlain, Bool.and_eq_true, Bool.and_eq_true]
    exact ⟨h f List.mem_cons_self, ih fun g hg => h g (List.mem_cons_of_mem f hg)⟩

/-! ### Faithful readers -/

/-- The value is written plainly, and what is read from that is the value. -/
structure Returns (read : Reader α) (write : α → Json) (a : α) : Prop where
  read_write : read (write a) = some a
  isPlain : (write a).isPlain

/-- Whatever the reader accepts returns. -/
def Faithful (read : Reader α) (write : α → Json) : Prop :=
  ∀ v a, read v = some a → Returns read write a

theorem returns_asBool? (b : Bool) : Returns asBool? bool b := ⟨rfl, rfl⟩

theorem returns_asString? (s : String) : Returns asString? string s := ⟨rfl, rfl⟩

theorem faithful_asNat? (bits : Nat) : Faithful (asNat? bits) nat := by
  intro v n h
  cases v with
  | nat m =>
    rw [asNat?] at h
    split at h
    · rename_i hlt
      obtain rfl := Option.some.inj h
      exact ⟨if_pos hlt, rfl⟩
    · cases h
  | _ => cases h

theorem lt_of_asNat?_eq_some {bits : Nat} {v : Json} {n : Nat} (h : asNat? bits v = some n) :
    n < 2 ^ bits := by
  cases v with
  | nat m =>
    rw [asNat?] at h
    split at h
    · rename_i hlt
      exact Option.some.inj h ▸ hlt
    · cases h
  | _ => cases h

theorem faithful_named [Named α] : Faithful (Named.read? : Reader α) Named.write := by
  intro v a h
  obtain ⟨name, -, hname⟩ := Option.bind_eq_some_iff.mp h
  rw [Named.ofName?] at hname
  have heq := List.find?_some hname
  rw [beq_iff_eq] at heq
  refine ⟨?_, rfl⟩
  show Named.ofName? (Named.name a) = some a
  rw [Named.ofName?, heq, hname]

theorem mapM_map_eq_some {f : β → Option α} {g : α → β} {items : List α}
    (h : ∀ a ∈ items, f (g a) = some a) : (items.map g).mapM f = some items := by
  induction items with
  | nil => rfl
  | cons a items ih =>
    rw [List.map_cons, List.mapM_cons, h a List.mem_cons_self,
      ih fun b hb => h b (List.mem_cons_of_mem a hb)]
    rfl

theorem exists_of_mem_of_mapM_eq_some {f : β → Option α} {xs : List β} {items : List α}
    (h : xs.mapM f = some items) {a : α} (ha : a ∈ items) : ∃ x ∈ xs, f x = some a := by
  induction xs generalizing items with
  | nil =>
    obtain rfl := Option.some.inj h
    cases ha
  | cons x xs ih =>
    simp only [List.mapM_cons, Option.bind_eq_bind, Option.bind_eq_some_iff] at h
    obtain ⟨b, hb, rest, hrest, heq⟩ := h
    obtain rfl := Option.some.inj heq
    rcases List.mem_cons.mp ha with rfl | ha
    · exact ⟨x, List.mem_cons_self, hb⟩
    · obtain ⟨y, hy, hya⟩ := ih hrest ha
      exact ⟨y, List.mem_cons_of_mem x hy, hya⟩

theorem Returns.asList? {read : Reader α} {write : α → Json} {items : List α}
    (h : ∀ a ∈ items, Returns read write a) : Returns (asList? read) (ofList write) items where
  read_write := mapM_map_eq_some fun a ha => (h a ha).read_write
  isPlain := isPlain_ofList fun a ha => (h a ha).isPlain

theorem Faithful.asList? {read : Reader α} {write : α → Json} (h : Faithful read write) :
    Faithful (asList? read) (ofList write) := by
  intro v items hitems
  cases v with
  | array vs =>
    refine Returns.asList? fun a ha => ?_
    obtain ⟨w, -, hw⟩ := exists_of_mem_of_mapM_eq_some hitems ha
    exact h w a hw
  | _ => cases hitems

/-! ### Records -/

theorem hasDuplicate_eq_false {names : List String} {fields : List (String × Json)}
    (h : (fields.map (·.1)).Nodup) : hasDuplicate names fields = false := by
  induction fields with
  | nil => rfl
  | cons f fields ih =>
    obtain ⟨hmem, hnodup⟩ := List.nodup_cons.mp h
    have hany : (fields.any fun g => g.1 == f.1) = false := by
      rw [List.any_eq_false]
      intro g hg heq
      exact hmem (List.mem_map.mpr ⟨g, hg, beq_iff_eq.mp heq⟩)
    rw [hasDuplicate, hany, ih hnodup, Bool.and_false, Bool.false_or]

/-- A record written with some of its fields, in the declared order, is read with these fields. -/
theorem asRecord?_ofFields {names : List String} {fields : List (String × Json)}
    (hnames : names.Nodup) (hfields : (fields.map (·.1)).Sublist names)
    (hplain : ∀ f ∈ fields, f.2.isPlain) :
    asRecord? names (ofFields fields) = some ⟨fields, false⟩ := by
  have hwhole : fields.all (·.2.isWhole) = true := by
    rw [List.all_eq_true]
    exact fun f hf => isWhole_of_isPlain (hplain f hf)
  have hknown : fields.filter (names.contains ·.1) = fields := by
    rw [List.filter_eq_self]
    intro f hf
    rw [List.contains_iff_mem]
    exact hfields.subset (List.mem_map.mpr ⟨f, hf, rfl⟩)
  have hentries := asEntries?_ofFields fields
  rw [ofFields] at hentries ⊢
  simp only [asRecord?, hentries, hasDuplicate_eq_false (hnames.sublist hfields), hwhole, hknown]
  rfl

/-- The fields that are there, of a record in which some may be left out. -/
def present (fields : List (String × Option Json)) : List (String × Json) :=
  fields.filterMap fun f => f.2.map fun v => (f.1, v)

theorem sublist_map_present (fields : List (String × Option Json)) :
    ((present fields).map (·.1)).Sublist (fields.map (·.1)) := by
  induction fields with
  | nil => exact List.Sublist.slnil
  | cons f fields ih =>
    obtain ⟨name, - | v⟩ := f
    · exact ih.cons _
    · exact ih.cons_cons _

theorem mem_present {fields : List (String × Option Json)} {name : String} {v : Json} :
    (name, v) ∈ present fields ↔ (name, some v) ∈ fields := by
  rw [present, List.mem_filterMap]
  constructor
  · rintro ⟨⟨name', o⟩, hmem, hmap⟩
    obtain ⟨w, rfl, heq⟩ := Option.map_eq_some_iff.mp hmap
    obtain ⟨rfl, rfl⟩ := Prod.mk.inj heq
    exact hmem
  · intro hmem
    exact ⟨(name, some v), hmem, rfl⟩

/-- A field is found where it is there, if no name stands twice. -/
theorem lookup_present {fields : List (String × Option Json)} (h : (fields.map (·.1)).Nodup)
    (name : String) : (present fields).lookup name = (fields.lookup name).join := by
  induction fields with
  | nil => rfl
  | cons f fields ih =>
    obtain ⟨hmem, hnodup⟩ := List.nodup_cons.mp h
    have ih := ih hnodup
    obtain ⟨name', o⟩ := f
    by_cases hname : name = name'
    · subst hname
      cases o with
      | some v => simp [present]
      | none =>
        -- the name is not among the others
        have hlookup : fields.lookup name = none := by
          rw [List.lookup_eq_none_iff]
          intro g hg
          rw [bne_iff_ne]
          rintro rfl
          exact hmem (List.mem_map.mpr ⟨g, hg, rfl⟩)
        rw [hlookup] at ih
        simpa [present] using ih
    · have hbeq : (name == name') = false := beq_eq_false_iff_ne.mpr hname
      cases o with
      | some v => simpa [present, List.lookup_cons, hbeq] using ih
      | none => simpa [present, List.lookup_cons, hbeq] using ih

/-- The fields are those of the declared names, in order, some of them left out; the names need no
escapes, and the values are plain. -/
structure Laid (names : List String) (fields : List (String × Option Json)) : Prop where
  names_eq : fields.map (·.1) = names
  nodup : names.Nodup
  verbatim : ∀ name ∈ names, isVerbatim name
  plain : ∀ f ∈ fields, ∀ v ∈ f.2, v.isPlain

theorem isPlain_of_mem_some {v w : Json} (h : v.isPlain) (hw : w ∈ some v) : w.isPlain :=
  Option.some.inj hw ▸ h

theorem isPlain_of_mem_ite {c : Prop} [Decidable c] {v w : Json} (h : v.isPlain)
    (hw : w ∈ if c then none else some v) : w.isPlain := by
  split at hw
  · cases hw
  · exact isPlain_of_mem_some h hw

theorem isPlain_of_mem_map {read : Reader α} {write : α → Json} {o : Option α}
    (h : ∀ a ∈ o, Returns read write a) {v : Json} (hv : v ∈ o.map write) : v.isPlain := by
  obtain ⟨a, rfl, rfl⟩ := Option.map_eq_some_iff.mp hv
  exact (h a rfl).isPlain

/-- A field that is left out under a condition. -/
theorem ite_eq_some_or_eq_none {c p : Prop} [Decidable c] {v : Json} (h : c → p) :
    (if c then none else some v) = some v ∨ (if c then none else some v) = none ∧ p := by
  split
  · exact .inr ⟨rfl, h ‹_›⟩
  · exact .inl rfl

namespace Laid

variable {names : List String} {fields : List (String × Option Json)} (h : Laid names fields)
include h

theorem isPlain_of_mem_present {f : String × Json} (hf : f ∈ present fields) :
    isVerbatim f.1 ∧ f.2.isPlain := by
  have hmem := mem_present.mp hf
  refine ⟨h.verbatim f.1 ?_, h.plain _ hmem f.2 rfl⟩
  rw [← h.names_eq]
  exact List.mem_map.mpr ⟨_, hmem, rfl⟩

/-- A record in which some fields are left out is read with the others. -/
theorem asRecord?_eq : asRecord? names (ofFields (present fields)) = some ⟨present fields, false⟩ :=
  asRecord?_ofFields h.nodup (h.names_eq ▸ sublist_map_present fields)
    fun _ hf => (h.isPlain_of_mem_present hf).2

theorem isPlain : (ofFields (present fields)).isPlain :=
  isPlain_ofFields fun _ hf => h.isPlain_of_mem_present hf

theorem lookup_eq (name : String) : (present fields).lookup name = (fields.lookup name).join :=
  lookup_present (h.names_eq ▸ h.nodup) name

end Laid

namespace Record

variable {r : Record} {name : String} {read : Reader α} {write : α → Json} {a : α}

theorem returns_of_required (hread : Faithful read write) (h : r.required name read = some a) :
    Returns read write a := by
  obtain ⟨v, -, hv⟩ := Option.bind_eq_some_iff.mp h
  exact hread v a hv

theorem returns_of_defaulted (hread : Faithful read write) {default : α}
    (hdefault : Returns read write default) (h : r.defaulted name default read = some a) :
    Returns read write a := by
  rw [defaulted] at h
  split at h
  · exact Option.some.inj h ▸ hdefault
  · exact hread _ a h

theorem returns_of_optional (hread : Faithful read write) {o : Option α}
    (h : r.optional name read = some o) : ∀ a ∈ o, Returns read write a := by
  rintro a rfl
  rw [optional, defaulted] at h
  split at h
  · cases h
  · rename_i v _
    cases v with
    | null => cases h
    | _ =>
      obtain ⟨b, hb, heq⟩ := Option.map_eq_some_iff.mp h
      exact Option.some.inj heq ▸ hread _ b hb

/-! #### Written records -/

variable {names : List String} {fields : List (String × Option Json)} (hfields : Laid names fields)
include hfields

theorem required_present (name : String) (hlookup : fields.lookup name = some (some (write a)))
    (ha : Returns read write a) :
    Record.required ⟨present fields, false⟩ name read = some a := by
  rw [required, hfields.lookup_eq, hlookup]
  exact ha.read_write

/-- A field with a default may be left out where it has the default. -/
theorem defaulted_present (name : String) (default : α) {o : Option Json}
    (hlookup : fields.lookup name = some o) (ho : o = some (write a) ∨ o = none ∧ a = default)
    (ha : Returns read write a) :
    Record.defaulted ⟨present fields, false⟩ name default read = some a := by
  rw [defaulted, hfields.lookup_eq, hlookup]
  rcases ho with rfl | ⟨rfl, rfl⟩
  · exact ha.read_write
  · rfl

/-- An optional field is written where there is a value, and never as null. -/
theorem optional_present (name : String) {o : Option α}
    (hlookup : fields.lookup name = some (o.map write)) (ho : ∀ a ∈ o, Returns read write a)
    (hnull : ∀ a, write a ≠ null) :
    Record.optional ⟨present fields, false⟩ name read = some o := by
  rw [optional, defaulted, hfields.lookup_eq, hlookup]
  cases o with
  | none => rfl
  | some a =>
    show asOptional? read (write a) = _
    rw [asOptional?, (ho a rfl).read_write]
    · rfl
    · exact hnull a

end Record

/-! ### Records with faults of their own -/

/-- The same of a reader that says what is wrong: the value is written plainly, and what is read
from that is the value. -/
structure ReadBack {ε : Type} (read : Json → Except ε α) (write : α → Json) (a : α) : Prop where
  read_write : read (write a) = .ok a
  isPlain : (write a).isPlain

section Folds

variable {ε σ : Type} {names : List String} {shape : ε} {step : σ → String → Json → Except ε σ}
  {P : σ → Prop}

/-- What holds at the beginning and is kept by every field holds at the end. -/
theorem of_foldFields_eq_ok {seen : List String} {state state' : σ} {fields : List (Key × Json)}
    (hstep : ∀ state name v state', P state → step state name v = .ok state' → P state')
    (h : foldFields names shape step seen state fields = .ok state') (hP : P state) : P state' := by
  induction fields generalizing seen state with
  | nil => exact Except.ok.inj h ▸ hP
  | cons f fields ih =>
    obtain ⟨key, v⟩ := f
    rw [foldFields] at h
    split at h
    · cases h
    · split at h
      · split at h
        · cases h
        · split at h
          · cases h
          · rename_i next hnext
            exact ih h (hstep _ _ _ next hP hnext)
      · split at h
        · exact ih h hP
        · cases h

theorem of_foldRecord_eq_ok {state state' : σ} {v : Json}
    (hstep : ∀ state name v state', P state → step state name v = .ok state' → P state')
    (h : foldRecord names shape step state v = .ok state') (hP : P state) : P state' := by
  cases v with
  | object fields => exact of_foldFields_eq_ok hstep h hP
  | array items =>
    rw [foldRecord] at h
    split at h
    · cases h
    · rename_i next hnext
      split at h
      · cases h
      · exact Except.ok.inj h ▸ of_foldFields_eq_ok hstep hnext hP
  | _ => cases h

/-- A known field that was not met before is taken. -/
theorem foldFields_cons {seen : List String} {state next : σ} {name : String} {v : Json}
    {rest : List (Key × Json)} (hname : names.contains name = true)
    (hseen : seen.contains name = false) (hnext : step state name v = .ok next) :
    foldFields names shape step seen state ((.plain name, v) :: rest)
      = foldFields names shape step (name :: seen) next rest := by
  simp only [foldFields, Key.text?, hname, hseen, hnext, if_true, Bool.false_eq_true, if_false]

theorem exists_of_map_eq_ok {α β : Type} {x : Except ε α} {f : α → β} {b : β}
    (h : x.map f = .ok b) : ∃ a, x = .ok a ∧ f a = b := by
  cases x with
  | error e => cases h
  | ok a => exact ⟨a, rfl, Except.ok.inj h⟩

theorem eq_ok_of_mapError_eq_ok {ε' α : Type} {x : Except ε α} {f : ε → ε'} {a : α}
    (h : x.mapError f = .ok a) : x = .ok a := by
  cases x with
  | error e => cases h
  | ok b => exact congrArg Except.ok (Except.ok.inj h)

theorem exists_of_mem_of_mapM_eq_ok {α β : Type} {f : β → Except ε α} {xs : List β} {items : List α}
    (h : xs.mapM f = .ok items) {a : α} (ha : a ∈ items) : ∃ x ∈ xs, f x = .ok a := by
  induction xs generalizing items with
  | nil =>
    obtain rfl := Except.ok.inj h
    cases ha
  | cons x xs ih =>
    rw [List.mapM_cons] at h
    rcases hx : f x with e | b
    · rw [hx] at h
      cases h
    · rcases hxs : xs.mapM f with e | rest
      · rw [hx, hxs] at h
        cases h
      · rw [hx, hxs] at h
        obtain rfl : b :: rest = items := Except.ok.inj h
        rcases List.mem_cons.mp ha with rfl | ha
        · exact ⟨x, List.mem_cons_self, hx⟩
        · obtain ⟨y, hy, hya⟩ := ih hxs ha
          exact ⟨y, List.mem_cons_of_mem x hy, hya⟩

theorem mapM_map_eq_ok {α β : Type} {f : β → Except ε α} {g : α → β} {items : List α}
    (h : ∀ a ∈ items, f (g a) = .ok a) : (items.map g).mapM f = .ok items := by
  induction items with
  | nil => rfl
  | cons a items ih =>
    rw [List.map_cons, List.mapM_cons, h a List.mem_cons_self,
      ih fun b hb => h b (List.mem_cons_of_mem a hb)]
    rfl

end Folds

end Json

end TreeLint
