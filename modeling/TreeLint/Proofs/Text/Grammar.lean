/-
TreeLint/Proofs/Text/Grammar.lean

Which texts are literals, and which ones are read.

A literal is a body between quotes, and a body is a sequence of items, each of
which denotes one character: in a regular body a plain character or an escape, in
a verbatim one a plain character or two quotes.  A quote that belongs to no item
ends the literal.

Reading takes the quotes at both ends of a text off before it looks at any item.
So it reads exactly the bodies in which a quote may also stand *alone*, for itself
(`decode?_eq_some_iff_reads`).  These are the literals, and the texts in which a
literal has ended before the text does (`reads_false_iff`).
-/
import TreeLint.Proofs.Text.Literal
import Mathlib.Data.Nat.Digits.Defs

namespace TreeLint.Text.Literal

/-! ### The grammar -/

/-- The character is a hexadecimal digit, in either case, with the given value. -/
def IsHexDigit (c : Char) (d : Nat) : Prop :=
  d < 16 ∧ (c = Nat.digitChar d ∨ c = (Nat.digitChar d).toUpper)

/-- In front of `rest` stands a run of at least `least` and at most `most` digits, and it is as long
as it can be. -/
structure IsRun (least most : Nat) (digits : List Char) (values : List Nat) (rest : List Char) :
    Prop where
  isHexDigit : List.Forall₂ IsHexDigit digits values
  least_le : least ≤ values.length
  le_most : values.length ≤ most
  greedy : values.length < most → ∀ c rest' d, rest = c :: rest' → ¬ IsHexDigit c d

/-- The body of a regular literal, with the characters that its items denote.  If `alone` holds, a
quote may be an item. -/
inductive Regular (alone : Prop) : List Char → List Char → Prop
  | nil : Regular alone [] []
  | plain {c : Char} {body value : List Char} :
      c ≠ '\\' → (c = '"' → alone) → Regular alone body value →
      Regular alone (c :: body) (c :: value)
  | simple {e c : Char} {body value : List Char} :
      simpleEscape? e = some c → Regular alone body value →
      Regular alone ('\\' :: e :: body) (c :: value)
  | hex {e c : Char} {least most : Nat} {digits : List Char} {values : List Nat}
      {body value : List Char} :
      hexBounds? e = some (least, most) → IsRun least most digits values body →
      c.toNat = Nat.ofDigits 16 values.reverse → Regular alone body value →
      Regular alone ('\\' :: e :: (digits ++ body)) (c :: value)

/-- The body of a verbatim literal, with the characters that its items denote.  If `alone` holds, a
quote with no other one behind it may be an item. -/
inductive Verbatim (alone : Prop) : List Char → List Char → Prop
  | nil : Verbatim alone [] []
  | plain {c : Char} {body value : List Char} :
      c ≠ '"' → Verbatim alone body value → Verbatim alone (c :: body) (c :: value)
  | doubled {body value : List Char} :
      Verbatim alone body value → Verbatim alone ('"' :: '"' :: body) ('"' :: value)
  | single {body value : List Char} :
      alone → body.head? ≠ some '"' → Verbatim alone body value →
      Verbatim alone ('"' :: body) ('"' :: value)

/-- The text is a body of one of the two forms between its quotes.  It is a literal if no quote may
stand alone in the body. -/
inductive Reads (alone : Prop) : List Char → List Char → Prop
  | regular {body value : List Char} :
      Regular alone body value → Reads alone ('"' :: (body ++ ['"'])) value
  | verbatim {body value : List Char} :
      Verbatim alone body value → Reads alone ('@' :: '"' :: (body ++ ['"'])) value

/-- Behind some items, and before the quote at the end of the text, stands a quote that ends the
literal. -/
inductive EndsEarly : List Char → Prop
  | regular {front back value : List Char} :
      Regular False front value → EndsEarly ('"' :: (front ++ '"' :: back ++ ['"']))
  | verbatim {front back value : List Char} :
      Verbatim False front value → back.head? ≠ some '"' →
      EndsEarly ('@' :: '"' :: (front ++ '"' :: back ++ ['"']))

variable {alone : Prop} {back body cs digits front rest value : List Char} {values : List Nat}
variable {least most : Nat}

/-! ### Digits -/

theorem isHexDigit_of_lt : ∀ n < 128, ∀ d ∈ hexDigit? (Char.ofNat n), d < 16 ∧
    (Char.ofNat n = Nat.digitChar d ∨ Char.ofNat n = (Nat.digitChar d).toUpper) := by
  decide

theorem hexDigit?_digitChar : ∀ d < 16, hexDigit? (Nat.digitChar d) = some d ∧
    hexDigit? (Nat.digitChar d).toUpper = some d := by
  decide

theorem hexDigit?_eq_some_iff {c : Char} {d : Nat} : hexDigit? c = some d ↔ IsHexDigit c d := by
  constructor
  · intro h
    have hlt : c.toNat < 128 := by
      have hle {last : Char} (hc : c ≤ last) (hlast : last.toNat < 128) : c.toNat < 128 :=
        Nat.lt_of_le_of_lt hc hlast
      rw [hexDigit?] at h
      split at h
      · rename_i hc
        exact hle hc.2 (by decide)
      split at h
      · rename_i hc
        exact hle hc.2 (by decide)
      split at h
      · rename_i hc
        exact hle hc.2 (by decide)
      · cases h
    have hdigit := isHexDigit_of_lt c.toNat hlt d
    rw [Char.ofNat_toNat] at hdigit
    exact hdigit h
  · rintro ⟨hd, rfl | rfl⟩
    · exact (hexDigit?_digitChar d hd).1
    · exact (hexDigit?_digitChar d hd).2

/-- A run is split off as a whole. -/
theorem hexRun_append (h : IsRun least most digits values rest) :
    hexRun most (digits ++ rest) = (values, rest) := by
  obtain ⟨hdigits, -, hle, hgreedy⟩ := h
  induction hdigits generalizing most with
  | nil =>
    cases most with
    | zero => rfl
    | succ most =>
      cases rest with
      | nil => rfl
      | cons c rest =>
        have hnone : hexDigit? c = none := by
          rw [Option.eq_none_iff_forall_ne_some]
          intro d hd
          exact hgreedy (Nat.succ_pos most) c rest d rfl (hexDigit?_eq_some_iff.mp hd)
        rw [List.nil_append, hexRun]
        simp only [hnone]
  | @cons c d digits values hc _ ih =>
    cases most with
    | zero => cases hle
    | succ most =>
      rw [List.length_cons] at hle hgreedy
      have hrun := ih (Nat.le_of_succ_le_succ hle) fun h => hgreedy (Nat.succ_lt_succ h)
      rw [List.cons_append, hexRun]
      simp only [hexDigit?_eq_some_iff.mpr hc, hrun]

/-- What is split off is a run. -/
theorem exists_isRun_hexRun (most : Nat) (cs : List Char) :
    ∃ digits, cs = digits ++ (hexRun most cs).2 ∧
      IsRun 0 most digits (hexRun most cs).1 (hexRun most cs).2 := by
  induction most generalizing cs with
  | zero => exact ⟨[], rfl, .nil, Nat.le_refl 0, Nat.le_refl 0, fun h => absurd h (Nat.lt_irrefl 0)⟩
  | succ most ih =>
    cases cs with
    | nil =>
      refine ⟨[], rfl, .nil, Nat.le_refl 0, Nat.zero_le _, ?_⟩
      rintro - c rest d ⟨⟩
    | cons c cs =>
      rw [hexRun]
      rcases hc : hexDigit? c with - | d
      · refine ⟨[], rfl, .nil, Nat.le_refl 0, Nat.zero_le _, ?_⟩
        intro _ c' rest d heq hd
        obtain ⟨rfl, -⟩ := List.cons.inj heq
        rw [hexDigit?_eq_some_iff.mpr hd] at hc
        cases hc
      · obtain ⟨digits, hcs, hdigits, -, hle, hgreedy⟩ := ih cs
        refine ⟨c :: digits, ?_, .cons (hexDigit?_eq_some_iff.mp hc) hdigits, Nat.zero_le _,
          Nat.succ_le_succ hle, fun h => hgreedy (Nat.lt_of_succ_lt_succ h)⟩
        rw [List.cons_append, ← hcs]

theorem scalar?_eq_some_iff {c : Char} {code : Nat} : scalar? code = some c ↔ c.toNat = code := by
  rw [scalar?]
  by_cases h : code.isValidChar
  · rw [dif_pos h, Option.some.injEq, ← Char.toNat_inj]
    exact eq_comm
  · rw [dif_neg h]
    constructor
    · intro hnone
      cases hnone
    · rintro rfl
      exact absurd c.valid h

theorem foldl_digits_eq_ofDigits (values : List Nat) :
    values.foldl (fun code d => code * 16 + d) 0 = Nat.ofDigits 16 values.reverse := by
  rw [Nat.ofDigits_eq_foldr, List.foldr_reverse]
  congr 1
  funext code d
  rw [Nat.cast_id, Nat.add_comm, Nat.mul_comm]

/-- Digits denote a character if they are enough and their value is that of a character. -/
theorem codePoint?_eq_some_iff {c : Char} :
    codePoint? least values = some c ↔
      least ≤ values.length ∧ c.toNat = Nat.ofDigits 16 values.reverse := by
  rw [codePoint?]
  split
  · rename_i h
    exact ⟨nofun, fun h' => absurd h'.1 (Nat.not_le.mpr h)⟩
  · rename_i h
    rw [scalar?_eq_some_iff, foldl_digits_eq_ofDigits]
    exact (and_iff_right (Nat.le_of_not_lt h)).symm

/-! ### Regular bodies -/

/-- No escape is both a character and a run of digits. -/
theorem hexBounds?_eq_none {e c : Char} (h : simpleEscape? e = some c) : hexBounds? e = none := by
  unfold hexBounds?
  split
  · cases h
  · cases h
  · cases h
  · rfl

theorem regular_of_decodeBody? (h : decodeBody? body = some value) : Regular True body value := by
  fun_induction decodeBody? body generalizing value with
  | case1 =>
    obtain rfl := Option.some.inj h
    exact .nil
  | case2 => cases h
  | case3 => cases h
  | case4 e rest least most hbounds c hcode ih =>
    obtain ⟨tail, htail, rfl⟩ := Option.map_eq_some_iff.mp h
    obtain ⟨digits, hrest, hrun⟩ := exists_isRun_hexRun most rest
    obtain ⟨hleast, hvalue⟩ := codePoint?_eq_some_iff.mp hcode
    have hhex := Regular.hex hbounds { hrun with least_le := hleast } hvalue (ih htail)
    rwa [← hrest] at hhex
  | case5 => cases h
  | case6 e rest _ c hsimple ih =>
    obtain ⟨tail, htail, rfl⟩ := Option.map_eq_some_iff.mp h
    exact .simple hsimple (ih htail)
  | case7 c rest hlast hescape ih =>
    obtain ⟨tail, htail, rfl⟩ := Option.map_eq_some_iff.mp h
    refine .plain ?_ (fun _ => trivial) (ih htail)
    rintro rfl
    cases rest with
    | nil => exact hlast rfl rfl
    | cons e rest => exact hescape e rest rfl rfl

theorem decodeBody?_of_regular (h : Regular alone body value) : decodeBody? body = some value := by
  induction h with
  | nil => rw [decodeBody?]
  | plain hc _ _ ih => rw [decodeBody?_cons_of_ne hc, ih, Option.map_some]
  | simple hsimple _ ih =>
    rw [decodeBody?]
    simp only [hexBounds?_eq_none hsimple, hsimple, ih, Option.map_some]
  | @hex e c least most digits values body value hbounds hrun hvalue _ ih =>
    have hcode := codePoint?_eq_some_iff.mpr ⟨hrun.least_le, hvalue⟩
    rw [decodeBody?]
    simp only [hbounds, hexRun_append hrun, hcode, ih, Option.map_some]

theorem decodeBody?_eq_some_iff : decodeBody? body = some value ↔ Regular True body value :=
  ⟨regular_of_decodeBody?, decodeBody?_of_regular⟩

/-- A quote is no digit, so a run ends in front of it. -/
theorem not_isHexDigit_quote (d : Nat) : ¬ IsHexDigit '"' d := by
  rw [← hexDigit?_eq_some_iff]
  exact nofun

theorem isRun_append_quote_iff :
    IsRun least most digits values (front ++ '"' :: back) ↔
      IsRun least most digits values front := by
  constructor
  · intro h
    refine { h with greedy := ?_ }
    rintro hlt c front d rfl
    exact h.greedy hlt c _ d rfl
  · intro h
    refine { h with greedy := ?_ }
    intro hlt c rest d heq
    cases front with
    | nil =>
      obtain rfl := (List.cons.inj heq).1
      exact not_isHexDigit_quote d
    | cons c' front =>
      obtain rfl := (List.cons.inj heq).1
      exact h.greedy hlt c' front d rfl

/-- A body in which no quote stands alone is also one in which some may. -/
theorem Regular.of_false (h : Regular False body value) : Regular alone body value := by
  induction h with
  | nil => exact .nil
  | plain hc hquote _ ih => exact .plain hc (fun h => (hquote h).elim) ih
  | simple hsimple _ ih => exact .simple hsimple ih
  | hex hbounds hrun hvalue _ ih => exact .hex hbounds hrun hvalue ih

/-- In a body that is read, the first quote that stands alone has items only before it. -/
theorem Regular.exists_front (h : Regular alone body value) :
    Regular False body value ∨
      ∃ front back value, body = front ++ '"' :: back ∧ Regular False front value := by
  induction h with
  | nil => exact .inl .nil
  | @plain c body value hc _ _ ih =>
    by_cases hquote : c = '"'
    · exact .inr ⟨[], body, [], by rw [hquote]; rfl, .nil⟩
    · rcases ih with h | ⟨front, back, v, rfl, h⟩
      · exact .inl (.plain hc hquote h)
      · exact .inr ⟨c :: front, back, c :: v, rfl, .plain hc hquote h⟩
  | @simple e c body value hsimple _ ih =>
    rcases ih with h | ⟨front, back, v, rfl, h⟩
    · exact .inl (.simple hsimple h)
    · exact .inr ⟨'\\' :: e :: front, back, c :: v, rfl, .simple hsimple h⟩
  | @hex e c least most digits values body value hbounds hrun hvalue _ ih =>
    rcases ih with h | ⟨front, back, v, rfl, h⟩
    · exact .inl (.hex hbounds hrun hvalue h)
    · rw [isRun_append_quote_iff] at hrun
      refine .inr ⟨'\\' :: e :: (digits ++ front), back, c :: v, ?_,
        .hex hbounds hrun hvalue h⟩
      simp

theorem Regular.of_cons {c : Char} (h : Regular alone (c :: body) value) (hc : c ≠ '\\') :
    (c = '"' → alone) ∧ ∃ v, Regular alone body v := by
  cases h with
  | plain _ hquote h => exact ⟨hquote, _, h⟩
  | simple => exact absurd rfl hc
  | hex => exact absurd rfl hc

theorem Regular.of_simple {e c : Char} (h : Regular alone ('\\' :: e :: body) value)
    (he : simpleEscape? e = some c) : ∃ v, Regular alone body v := by
  cases h with
  | plain hc => exact absurd rfl hc
  | simple _ h => exact ⟨_, h⟩
  | hex hbounds =>
    rw [hexBounds?_eq_none he] at hbounds
    cases hbounds

theorem Regular.of_hex {e : Char} (h : Regular alone ('\\' :: e :: (digits ++ body)) value)
    (he : hexBounds? e = some (least, most)) (hrun : IsRun least most digits values body) :
    ∃ v, Regular alone body v := by
  generalize hrest : digits ++ body = rest at h
  cases h with
  | plain hc => exact absurd rfl hc
  | simple hsimple =>
    rw [hexBounds?_eq_none hsimple] at he
    cases he
  | @hex _ _ _ _ digits' values' body' _ hbounds hrun' _ h =>
    -- both runs are what is split off
    obtain ⟨rfl, rfl⟩ := Prod.mk.inj (Option.some.inj (he.symm.trans hbounds))
    have hsplit := hexRun_append hrun
    rw [hrest, hexRun_append hrun'] at hsplit
    rw [← (Prod.mk.inj hsplit).2]
    exact ⟨_, h⟩

/-- Behind items, a quote that stands alone is no item. -/
theorem Regular.not_append_quote (hfront : Regular False front value) :
    ∀ v, ¬ Regular False (front ++ '"' :: back) v := by
  induction hfront with
  | nil => exact fun v h => (h.of_cons (by decide)).1 rfl
  | plain hc _ _ ih =>
    intro v h
    obtain ⟨-, v, h⟩ := h.of_cons hc
    exact ih v h
  | simple hsimple _ ih =>
    intro v h
    obtain ⟨v, h⟩ := h.of_simple hsimple
    exact ih v h
  | hex hbounds hrun _ _ ih =>
    intro v h
    rw [List.cons_append, List.cons_append, List.append_assoc] at h
    obtain ⟨v, h⟩ := h.of_hex hbounds (isRun_append_quote_iff.mpr hrun)
    exact ih v h

/-! ### Verbatim bodies -/

theorem undouble_eq_iff : undouble body = value ↔ Verbatim True body value := by
  constructor
  · intro h
    fun_induction undouble body generalizing value with
    | case1 rest ih =>
      subst h
      exact .doubled (ih rfl)
    | case2 c rest hpair ih =>
      subst h
      by_cases hc : c = '"'
      · subst hc
        refine .single trivial ?_ (ih rfl)
        intro hhead
        obtain ⟨rest, rfl⟩ := List.head?_eq_some_iff.mp hhead
        exact hpair rest rfl rfl
      · exact .plain hc (ih rfl)
    | case3 =>
      subst h
      exact .nil
  · intro h
    induction h with
    | nil => rw [undouble]
    | @plain c body value hc _ ih =>
      have h := undouble_double_append c body
      rwa [double, if_neg hc, List.singleton_append, ih] at h
    | @doubled body value _ ih =>
      have h := undouble_double_append '"' body
      rwa [double, if_pos rfl, ih] at h
    | @single body value _ hhead _ ih =>
      rw [undouble, ih]
      rintro rest - rfl
      exact hhead rfl

theorem Verbatim.of_false (h : Verbatim False body value) : Verbatim alone body value := by
  induction h with
  | nil => exact .nil
  | plain hc _ ih => exact .plain hc ih
  | doubled _ ih => exact .doubled ih
  | single h => exact h.elim

theorem Verbatim.exists_front (h : Verbatim alone body value) :
    Verbatim False body value ∨
      ∃ front back value, body = front ++ '"' :: back ∧ back.head? ≠ some '"' ∧
        Verbatim False front value := by
  induction h with
  | nil => exact .inl .nil
  | @plain c body value hc _ ih =>
    rcases ih with h | ⟨front, back, v, rfl, hback, h⟩
    · exact .inl (.plain hc h)
    · exact .inr ⟨c :: front, back, c :: v, rfl, hback, .plain hc h⟩
  | @doubled body value _ ih =>
    rcases ih with h | ⟨front, back, v, rfl, hback, h⟩
    · exact .inl (.doubled h)
    · exact .inr ⟨'"' :: '"' :: front, back, '"' :: v, rfl, hback, .doubled h⟩
  | @single body value _ hbody _ _ => exact .inr ⟨[], body, [], rfl, hbody, .nil⟩

theorem Verbatim.of_cons {c : Char} (h : Verbatim alone (c :: body) value) (hc : c ≠ '"') :
    ∃ v, Verbatim alone body v := by
  cases h with
  | plain _ h => exact ⟨_, h⟩
  | doubled => exact absurd rfl hc
  | single => exact absurd rfl hc

theorem Verbatim.of_quote (h : Verbatim False ('"' :: body) value) :
    ∃ rest v, body = '"' :: rest ∧ Verbatim False rest v := by
  cases h with
  | plain hc => exact absurd rfl hc
  | doubled h => exact ⟨_, _, rfl, h⟩
  | single h => exact h.elim

theorem Verbatim.not_append_quote (hfront : Verbatim False front value)
    (hback : back.head? ≠ some '"') : ∀ v, ¬ Verbatim False (front ++ '"' :: back) v := by
  induction hfront with
  | nil =>
    intro v h
    obtain ⟨rest, -, rfl, -⟩ := h.of_quote
    exact hback rfl
  | plain hc _ ih =>
    intro v h
    obtain ⟨v, h⟩ := h.of_cons hc
    exact ih v h
  | doubled _ ih =>
    intro v h
    obtain ⟨rest, v, hrest, h⟩ := h.of_quote
    obtain rfl := (List.cons.inj hrest).2
    exact ih v h
  | single h => exact h.elim

/-! ### Texts -/

theorem beforeQuote?_eq_some_iff : beforeQuote? cs = some body ↔ cs = body ++ ['"'] := by
  constructor
  · intro h
    rw [beforeQuote?] at h
    split at h
    · rename_i hlast
      obtain ⟨front, rfl⟩ := List.getLast?_eq_some_iff.mp hlast
      rw [List.dropLast_concat] at h
      rw [Option.some.inj h]
    · cases h
  · rintro rfl
    exact beforeQuote?_append_quote body

/-- Reading accepts the bodies in which quotes may stand alone. -/
theorem decode?_eq_some_iff_reads {text value : String} :
    decode? text = some value ↔ Reads True text.toList value.toList := by
  constructor
  · intro h
    rw [decode?] at h
    split at h
    · rename_i rest htext
      obtain ⟨body, hbody, rfl⟩ := Option.map_eq_some_iff.mp h
      rw [htext, beforeQuote?_eq_some_iff.mp hbody, String.toList_ofList]
      exact .verbatim (undouble_eq_iff.mp rfl)
    · rename_i rest htext
      obtain ⟨cs, hcs, rfl⟩ := Option.map_eq_some_iff.mp h
      obtain ⟨body, hbody, hcs⟩ := Option.bind_eq_some_iff.mp hcs
      rw [htext, beforeQuote?_eq_some_iff.mp hbody, String.toList_ofList]
      exact .regular (decodeBody?_eq_some_iff.mp hcs)
    · cases h
  · intro h
    rw [decode?]
    generalize htext : text.toList = cs at h
    generalize hvalue : value.toList = v at h
    cases h with
    | regular h =>
      simp only [beforeQuote?_append_quote, Option.bind_some, decodeBody?_of_regular h,
        Option.map_some, ← hvalue, String.ofList_toList]
    | verbatim h =>
      simp only [beforeQuote?_append_quote, Option.map_some, undouble_eq_iff.mpr h, ← hvalue,
        String.ofList_toList]

theorem Reads.of_regular (h : Reads alone ('"' :: (body ++ ['"'])) value) :
    Regular alone body value := by
  generalize htext : '"' :: (body ++ ['"']) = text at h
  cases h with
  | regular h => rwa [List.append_cancel_right (List.cons.inj htext).2]
  | verbatim => exact absurd (List.cons.inj htext).1 (by decide)

theorem Reads.of_verbatim (h : Reads alone ('@' :: '"' :: (body ++ ['"'])) value) :
    Verbatim alone body value := by
  generalize htext : '@' :: '"' :: (body ++ ['"']) = text at h
  cases h with
  | regular => exact absurd (List.cons.inj htext).1 (by decide)
  | verbatim h => rwa [List.append_cancel_right (List.cons.inj (List.cons.inj htext).2).2]

theorem EndsEarly.not_reads {text : List Char} (hearly : EndsEarly text) :
    ¬ Reads False text value := by
  intro h
  cases hearly with
  | regular hfront => exact hfront.not_append_quote _ h.of_regular
  | verbatim hfront hback => exact hfront.not_append_quote hback _ h.of_verbatim

/-- A text is a literal if it can be read and no literal ends in it early. -/
theorem reads_false_iff {text : List Char} :
    Reads False text value ↔ Reads True text value ∧ ¬ EndsEarly text := by
  constructor
  · intro h
    refine ⟨?_, fun hearly => hearly.not_reads h⟩
    cases h with
    | regular h => exact .regular h.of_false
    | verbatim h => exact .verbatim h.of_false
  · rintro ⟨h, hearly⟩
    cases h with
    | regular h =>
      rcases h.exists_front with hbody | ⟨front, back, v, rfl, hfront⟩
      · exact .regular hbody
      · exact absurd (.regular hfront) hearly
    | verbatim h =>
      rcases h.exists_front with hbody | ⟨front, back, v, rfl, hback, hfront⟩
      · exact .verbatim hbody
      · exact absurd (.verbatim hfront hback) hearly

/-- **What is read.**  A text is read exactly if it is a literal but for quotes that stand alone in
its body, and then as what its items denote.  So the literals are those of the texts that are read
in which no literal ends early. -/
theorem decode?_reads (text value : String) :
    (decode? text = some value ↔ Reads True text.toList value.toList) ∧
    (Reads False text.toList value.toList ↔
      decode? text = some value ∧ ¬ EndsEarly text.toList) := by
  rw [decode?_eq_some_iff_reads]
  exact ⟨Iff.rfl, reads_false_iff⟩

/-- A quote alone between two letters ends the literal, and yet the text is read. -/
theorem not_decode?_eq_some_iff :
    ¬ ∀ text value : String,
      decode? text = some value ↔ Reads False text.toList value.toList := by
  intro h
  have hread : decode? "\"a\"b\"" = some "a\"b" := by decide +kernel
  have hfront : Regular False ['a'] ['a'] := .plain (by decide) (by decide) .nil
  have hends : EndsEarly ('"' :: (['a'] ++ '"' :: ['b'] ++ ['"'])) := .regular hfront
  exact hends.not_reads ((h _ _).mp hread)

end TreeLint.Text.Literal
