/-
TreeLint/Proofs/Rule.lean

What filling the slots of a message template comes to.

A template is filled from each slot to the next one on its right: what stands
before the slot is copied, the slot gives way to its argument, and the rest is
filled in the same way (`Rule.Filled`).  So the arguments are never looked at, and
a slot without argument, like anything that is no slot, stays as it is.

Going through a template character by character does just that, because nothing
happens on the way to the first slot (`Rule.fillSlots_append_of_not_beginsIn`).
Two templates may be filled apart unless a slot lies across the place where they
meet (`Rule.fillSlots_append`).
-/
import TreeLint.Rule
import Mathlib.Data.List.TakeWhile

namespace TreeLint.Rule

/-! ### Slots -/

/-- Digits, at least one of them. -/
def IsNumber (digits : List Char) : Prop := digits ≠ [] ∧ ∀ c ∈ digits, c.isDigit = true

/-- The slot with the given digits. -/
def slot (digits : List Char) : List Char := '\x7b' :: (digits ++ ['\x7d'])

/-- What comes in place of a slot: the argument with its number, and the slot itself where there is
none. -/
def filling (args : List String) (digits : List Char) : List Char :=
  (args[Nat.ofDigitChars 10 digits 0]?.map String.toList).getD (slot digits)

/-- The text has a slot at its start. -/
def StartsWithSlot (cs : List Char) : Prop :=
  ∃ digits rest, IsNumber digits ∧ cs = slot digits ++ rest

/-- In `front`, with `rest` behind it, a slot begins. -/
def SlotBeginsIn (front rest : List Char) : Prop :=
  ∃ before after, front = before ++ after ∧ after ≠ [] ∧ StartsWithSlot (after ++ rest)

/-- A slot begins in `first` and ends in `second`. -/
def Straddled (first second : List Char) : Prop :=
  ∃ before after digits rest, first = before ++ after ∧ after ≠ [] ∧ IsNumber digits ∧
    after ++ second = slot digits ++ rest ∧ after.length < (slot digits).length

/-- Each slot gives way to its argument, from left to right; no slot begins before the first one, and
none is looked for in what has been put in. -/
inductive Filled (args : List String) : List Char → List Char → Prop
  | copy {cs : List Char} : ¬ SlotBeginsIn cs [] → Filled args cs cs
  | slot {front digits cs out : List Char} :
      ¬ SlotBeginsIn front (slot digits ++ cs) → IsNumber digits → Filled args cs out →
      Filled args (front ++ (slot digits ++ cs)) (front ++ (filling args digits ++ out))

variable {args : List String} {c : Char} {cs digits first front out rest second : List Char}

theorem not_beginsIn_nil : ¬ SlotBeginsIn [] rest := by
  rintro ⟨before, after, heq, hne, -⟩
  exact hne (List.append_eq_nil_iff.mp heq.symm).2

theorem beginsIn_cons_iff :
    SlotBeginsIn (c :: front) rest ↔
      StartsWithSlot (c :: (front ++ rest)) ∨ SlotBeginsIn front rest := by
  constructor
  · rintro ⟨before, after, heq, hne, hslot⟩
    cases before with
    | nil =>
      rw [List.nil_append] at heq
      exact .inl (by rwa [← heq] at hslot)
    | cons b before => exact .inr ⟨before, after, (List.cons.inj heq).2, hne, hslot⟩
  · rintro (hslot | ⟨before, after, rfl, hne, hslot⟩)
    · exact ⟨[], c :: front, rfl, List.cons_ne_nil _ _, hslot⟩
    · exact ⟨c :: before, after, rfl, hne, hslot⟩

/-! ### Reading a slot -/

/-- The number that is read off a slot is that of its digits, with any zeros in front. -/
theorem foldl_digits_eq (digits : List Char) :
    digits.foldl (fun n c => n * 10 + (c.toNat - '0'.toNat)) 0 = Nat.ofDigitChars 10 digits 0 := by
  rw [Nat.ofDigitChars]
  congr 1
  funext n c
  rw [Nat.mul_comm]

theorem takeWhile_isDigit_append (hdigits : IsNumber digits) :
    (digits ++ '\x7d' :: rest).takeWhile Char.isDigit = digits := by
  rw [List.takeWhile_append_of_pos hdigits.2, List.takeWhile_cons_of_neg (by decide),
    List.append_nil]

theorem dropWhile_isDigit_append (hdigits : IsNumber digits) :
    (digits ++ '\x7d' :: rest).dropWhile Char.isDigit = '\x7d' :: rest := by
  rw [List.dropWhile_append_of_pos hdigits.2, List.dropWhile_cons_of_neg (by decide)]

/-- Behind an opening brace, a slot is read exactly where there is one. -/
theorem slot?_eq_some_iff {n : Nat} :
    slot? cs = some (n, rest) ↔
      ∃ digits, IsNumber digits ∧ cs = digits ++ '\x7d' :: rest ∧
        n = Nat.ofDigitChars 10 digits 0 := by
  constructor
  · intro h
    rw [slot?] at h
    split at h
    · rename_i d ds rest' htake hdrop
      obtain ⟨hn, rfl⟩ := Prod.mk.inj (Option.some.inj h)
      refine ⟨d :: ds, ⟨List.cons_ne_nil d ds, fun c hc => ?_⟩, ?_, ?_⟩
      · exact List.mem_takeWhile_imp (htake ▸ hc)
      · rw [← htake, ← hdrop, List.takeWhile_append_dropWhile]
      · rw [← hn, foldl_digits_eq]
    · cases h
  · rintro ⟨digits, hdigits, rfl, rfl⟩
    rw [slot?, takeWhile_isDigit_append hdigits, dropWhile_isDigit_append hdigits]
    obtain ⟨d, ds, rfl⟩ := List.exists_cons_of_ne_nil hdigits.1
    simp only [foldl_digits_eq]

theorem slot?_append (hdigits : IsNumber digits) :
    slot? (digits ++ '\x7d' :: rest) = some (Nat.ofDigitChars 10 digits 0, rest) :=
  slot?_eq_some_iff.mpr ⟨digits, hdigits, rfl, rfl⟩

/-! ### Filling slots -/

/-- A slot gives way to its argument. -/
theorem fillSlots_slot_append (args : List String) (hdigits : IsNumber digits)
    (cs : List Char) :
    fillSlots args (slot digits ++ cs) = filling args digits ++ fillSlots args cs := by
  have hslot : slot? (digits ++ '\x7d' :: cs) = _ := slot?_append hdigits
  have htext : slot digits ++ cs = '\x7b' :: (digits ++ '\x7d' :: cs) := by simp [slot]
  rw [htext, fillSlots, if_pos rfl]
  split
  · rename_i n rest h
    obtain ⟨rfl, rfl⟩ := Prod.mk.inj (Option.some.inj (hslot.symm.trans h))
    rw [filling]
    rcases args[Nat.ofDigitChars 10 digits 0]? with - | arg
    · -- what is copied is what stands before the rest
      have hlength : (digits ++ '\x7d' :: cs).length - cs.length = (digits ++ ['\x7d']).length := by
        simp only [List.length_append, List.length_cons, List.length_nil]
        omega
      have htake : ((digits ++ ['\x7d']) ++ cs).take (digits ++ ['\x7d']).length = _ :=
        List.take_left' rfl
      rw [List.append_assoc, List.singleton_append] at htake
      simp only [hlength, htake]
      rfl
    · rfl
  · rename_i h
    cases hslot.symm.trans h

/-- Where no slot begins, a character is copied. -/
theorem fillSlots_cons (args : List String) (h : ¬ StartsWithSlot (c :: cs)) :
    fillSlots args (c :: cs) = c :: fillSlots args cs := by
  rw [fillSlots]
  split
  · rename_i hc
    subst hc
    split
    · rename_i n rest hslot
      obtain ⟨digits, hdigits, rfl, -⟩ := slot?_eq_some_iff.mp hslot
      exact absurd ⟨digits, rest, hdigits, by simp [slot]⟩ h
    · rfl
  · rfl

/-- What no slot begins in is copied, whatever stands behind it. -/
theorem fillSlots_append_of_not_beginsIn (args : List String) (h : ¬ SlotBeginsIn front rest) :
    fillSlots args (front ++ rest) = front ++ fillSlots args rest := by
  induction front with
  | nil => rfl
  | cons c front ih =>
    rw [beginsIn_cons_iff, not_or] at h
    rw [List.cons_append, fillSlots_cons args h.1, ih h.2, List.cons_append]

theorem Filled.cons (hc : ¬ StartsWithSlot (c :: cs)) (h : Filled args cs out) :
    Filled args (c :: cs) (c :: out) := by
  cases h with
  | copy hcs =>
    refine .copy ?_
    rw [beginsIn_cons_iff, List.append_nil]
    exact not_or.mpr ⟨hc, hcs⟩
  | @slot front digits cs out hfront hdigits h =>
    have hcons : ¬ SlotBeginsIn (c :: front) (Rule.slot digits ++ cs) := by
      rw [beginsIn_cons_iff]
      exact not_or.mpr ⟨hc, hfront⟩
    exact .slot hcons hdigits h

theorem filled_fillSlots (args : List String) (cs : List Char) :
    Filled args cs (fillSlots args cs) := by
  induction hlength : cs.length using Nat.strong_induction_on generalizing cs with
  | h k ih =>
    cases cs with
    | nil =>
      rw [fillSlots]
      exact .copy not_beginsIn_nil
    | cons c cs =>
      subst hlength
      by_cases hslot : StartsWithSlot (c :: cs)
      · obtain ⟨digits, rest, hdigits, htext⟩ := hslot
        have hlt : rest.length < (c :: cs).length := by
          rw [htext, slot, List.length_append, List.length_cons]
          omega
        rw [htext, fillSlots_slot_append args hdigits]
        have hfilled := Filled.slot not_beginsIn_nil hdigits (ih _ hlt rest rfl)
        exact hfilled
      · rw [fillSlots_cons args hslot]
        exact .cons hslot (ih _ (Nat.lt_succ_self _) cs rfl)

/-- Filling the slots of a template is going through it from slot to slot. -/
theorem filled_iff : Filled args cs out ↔ out = fillSlots args cs := by
  constructor
  · intro h
    induction h with
    | @copy cs hcs =>
      have hcopy := fillSlots_append_of_not_beginsIn args hcs
      rw [List.append_nil, fillSlots, List.append_nil] at hcopy
      exact hcopy.symm
    | slot hfront hdigits _ ih =>
      rw [fillSlots_append_of_not_beginsIn args hfront, fillSlots_slot_append args hdigits, ih]
  · rintro rfl
    exact filled_fillSlots args cs

/-- Without arguments every slot stays. -/
theorem fillSlots_nil (cs : List Char) : fillSlots [] cs = cs := by
  have h := filled_fillSlots [] cs
  generalize fillSlots [] cs = out at h
  induction h with
  | copy => rfl
  | slot _ _ _ ih => rw [ih]; rfl

/-! ### Filling in parts -/

theorem Straddled.append (h : Straddled first second) (front : List Char) :
    Straddled (front ++ first) second := by
  obtain ⟨before, after, digits, rest, rfl, h⟩ := h
  exact ⟨front ++ before, after, digits, rest, (List.append_assoc ..).symm, h⟩

/-- A slot that begins in `first`, and is not cut off at its end, ends there. -/
theorem not_beginsIn_append (h : ¬ Straddled (front ++ rest) second)
    (hfront : ¬ SlotBeginsIn front rest) : ¬ SlotBeginsIn front (rest ++ second) := by
  rintro ⟨before, after, rfl, hne, digits, tail, hdigits, htext⟩
  rw [← List.append_assoc] at htext
  have hle : (slot digits).length ≤ (after ++ rest).length := by
    by_contra hlt
    refine h ⟨before, after ++ rest, digits, tail, List.append_assoc .., ?_, hdigits, htext,
      Nat.lt_of_not_le hlt⟩
    exact List.append_ne_nil_of_left_ne_nil hne rest
  obtain ⟨tail', htail⟩ : slot digits <+: after ++ rest :=
    List.prefix_of_prefix_length_le ⟨tail, htext.symm⟩ (List.prefix_append _ second) hle
  exact hfront ⟨before, after, rfl, hne, digits, tail', hdigits, htail.symm⟩

/-- Templates may be filled apart if no slot lies across the place where they meet. -/
theorem fillSlots_append (args : List String) (h : ¬ Straddled first second) :
    fillSlots args (first ++ second) = fillSlots args first ++ fillSlots args second := by
  have hfilled := filled_fillSlots args first
  generalize fillSlots args first = out at hfilled
  induction hfilled with
  | @copy first hfirst =>
    refine fillSlots_append_of_not_beginsIn args ?_
    exact not_beginsIn_append (by rwa [List.append_nil]) hfirst
  | @slot front digits cs out hfront hdigits _ ih =>
    have hcs : ¬ Straddled cs second := by
      intro hcs
      have hmore := hcs.append (front ++ slot digits)
      rw [List.append_assoc] at hmore
      exact h hmore
    rw [List.append_assoc, fillSlots_append_of_not_beginsIn args (not_beginsIn_append h hfront),
      List.append_assoc, fillSlots_slot_append args hdigits, ih hcs, List.append_assoc,
      List.append_assoc]

/-- A slot that goes on behind a text has an opening brace or a digit at the end of that text. -/
theorem not_straddled_append_singleton (hbrace : c ≠ '\x7b') (hdigit : c.isDigit = false) :
    ¬ Straddled (front ++ [c]) second := by
  rintro ⟨before, after, digits, rest, hfirst, hne, hdigits, htext, hlt⟩
  obtain ⟨after, d, rfl⟩ := (List.eq_nil_or_concat after).resolve_left hne
  rw [List.concat_eq_append, ← List.append_assoc] at hfirst
  obtain rfl : c = d := (List.append_singleton_inj.mp hfirst).2
  -- the end of the text is not that of the slot
  have hlt : after.length < ('\x7b' :: digits).length := by
    simp only [slot, List.length_append, List.length_cons, List.length_nil,
      List.concat_eq_append] at hlt ⊢
    omega
  have hc : ('\x7b' :: digits)[after.length]? = some c := by
    have hslot : slot digits ++ rest = '\x7b' :: digits ++ '\x7d' :: rest := by simp [slot]
    rw [hslot] at htext
    rw [← List.getElem?_append_left hlt, ← htext]
    simp
  rcases List.mem_cons.mp (List.mem_of_getElem? hc) with rfl | hmem
  · exact hbrace rfl
  · rw [hdigits.2 c hmem] at hdigit
    cases hdigit

/-! ### Messages -/

/-- **Messages are filled templates.**  A message is the template with its slots filled from left to
right, and nothing else is.  Without arguments it is the template, and the message of two templates
together is that of the one before that of the other, if no slot lies across both. -/
theorem message_fills (r : Rule) (args : List String) :
    (∀ out, Filled args r.messageFormat.toList out ↔ out = (r.message args).toList) ∧
    r.message [] = r.messageFormat ∧
    ∀ first second, r.messageFormat = first ++ second →
      ¬ Straddled first.toList second.toList →
      r.message args = ({ r with messageFormat := first } : Rule).message args
        ++ ({ r with messageFormat := second } : Rule).message args := by
  refine ⟨fun out => ?_, ?_, ?_⟩
  · rw [filled_iff, message, String.toList_ofList]
  · rw [message, fillSlots_nil, String.ofList_toList]
  · intro first second hformat h
    rw [message, hformat, String.toList_append, fillSlots_append args h, String.ofList_append]
    rfl

/-- A template with a slot between braces, and a slot that has no argument. -/
def bracedSlot : Rule :=
  { (default : Rule) with messageFormat := "\x7b\x7b00\x7d\x7d is \x7b1\x7d\x7b2\x7d" }

/-- The first argument looks like a slot. -/
theorem message_fills_bracedSlot :
    ¬ Straddled "\x7b\x7b00\x7d\x7d is ".toList "\x7b1\x7d\x7b2\x7d".toList ∧
      bracedSlot.message ["\x7b1\x7d", "x"]
        = "\x7b\x7b1\x7d\x7d is " ++ "x\x7b2\x7d" ∧
      bracedSlot.message [] = bracedSlot.messageFormat := by
  obtain ⟨-, hnone, happend⟩ := message_fills bracedSlot ["\x7b1\x7d", "x"]
  have hspace : ¬ Straddled ("\x7b\x7b00\x7d\x7d is".toList ++ [' '])
      "\x7b1\x7d\x7b2\x7d".toList :=
    not_straddled_append_singleton (by decide) (by decide)
  have happart : ¬ Straddled "\x7b\x7b00\x7d\x7d is ".toList "\x7b1\x7d\x7b2\x7d".toList :=
    hspace
  refine ⟨happart, ?_, hnone⟩
  rw [happend _ _ rfl happart]
  decide +kernel

end TreeLint.Rule
