/-
TreeLint/Proofs/Json/Text.lean

What is written can be read: the text of a value over several lines reads as
that value again (`Json.parse_pretty`).

This holds of *plain* values, those that use only what the writer has a form of
its own for: no number but natural ones, no `garbled` and no `broken`, and no
key that would be written with escapes.

The readers are followed from left to right.  Each lemma is about the text of
something with more text behind it, and says that exactly the latter is left.
Only a number depends on what is behind it: it ends where no digit, fraction or
exponent follows, and in a written value a comma, a line feed or nothing does
(`Ends`).
-/
import TreeLint.Json.Parser
import TreeLint.Json.Printer
import Mathlib.Data.List.Basic
import Mathlib.Data.Nat.Digits.Defs

namespace TreeLint.Json

/-! ### Strings -/

/-- Every character has a code point of its own. -/
theorem scalar?_toNat (c : Char) : Text.Literal.scalar? c.toNat = some c := by
  have hvalid : c.toNat.isValidChar := c.valid
  have hofNat := Char.ofNat_toNat c
  rw [Char.ofNat, dif_pos hvalid] at hofNat
  rw [Text.Literal.scalar?, dif_pos hvalid, hofNat]

/-- Characters are no surrogates, so their code points are read one by one. -/
theorem textOfUnits?_map_toNat (cs : List Char) : textOfUnits? (cs.map Char.toNat) = some cs := by
  induction cs with
  | nil => rfl
  | cons c cs ih =>
    cases cs with
    | nil =>
      show (Text.Literal.scalar? c.toNat).map _ = _
      rw [scalar?_toNat]
      rfl
    | cons d ds =>
      have hc : ¬(0xD800 ≤ c.toNat ∧ c.toNat < 0xDC00) := by
        have hvalid : c.toNat.isValidChar := c.valid
        rintro ⟨hle, hlt⟩
        rcases hvalid with h | h <;> omega
      rw [List.map_cons, List.map_cons, textOfUnits?, if_neg hc, scalar?_toNat]
      rw [List.map_cons] at ih
      rw [ih]
      rfl

theorem hexUnit?_hexChar : ∀ n < 0x20, hexUnit? '0' '0' (hexChar (n / 16)) (hexChar (n % 16))
    = some n := by
  decide

/-- An escaped character is one unit, its code point. -/
theorem stringUnits_escapeChar (c : Char) (cs : List Char) :
    stringUnits (escapeChar c ++ cs) = (stringUnits cs).map fun r => (c.toNat :: r.1, r.2) := by
  by_cases h1 : c = '"'
  · subst h1; rfl
  by_cases h2 : c = '\\'
  · subst h2; rfl
  by_cases h3 : c = '\x08'
  · subst h3; rfl
  by_cases h4 : c = '\x0c'
  · subst h4; rfl
  by_cases h5 : c = '\n'
  · subst h5; rfl
  by_cases h6 : c = '\r'
  · subst h6; rfl
  by_cases h7 : c = '\t'
  · subst h7; rfl
  rw [escapeChar, if_neg h1, if_neg h2, if_neg h3, if_neg h4, if_neg h5, if_neg h6, if_neg h7]
  by_cases h8 : c.toNat < 0x20
  · have hunit := hexUnit?_hexChar c.toNat h8
    rw [if_pos h8]
    simp only [List.cons_append, List.nil_append, stringUnits, hunit]
  · rw [if_neg h8, List.singleton_append, stringUnits, if_neg (not_or.mpr ⟨h2, h8⟩)]
    · exact h1
    · rintro _ _ _ _ _ hc
      exact absurd hc h2
    · rintro _ _ hc
      exact absurd hc h2

/-- The units of a quoted text end at the closing quote. -/
theorem stringUnits_quoted (s rest : List Char) :
    stringUnits (s.flatMap escapeChar ++ '"' :: rest) = some (s.map Char.toNat, rest) := by
  induction s with
  | nil => rfl
  | cons c s ih => rw [List.flatMap_cons, List.append_assoc, stringUnits_escapeChar, ih]; rfl

theorem toList_quote (s : String) :
    (quote s).toList = '"' :: (s.toList.flatMap escapeChar ++ ['"']) := by
  rw [quote, String.toList_ofList]

theorem readString_quoted (s : String) (rest : List Char) :
    readString (s.toList.flatMap escapeChar ++ '"' :: rest) = (string s, some rest) := by
  simp only [readString, stringUnits_quoted, textOfUnits?_map_toNat, String.ofList_toList]

/-- Whether a text is written without escapes. -/
def isVerbatim (s : String) : Bool := s.toList.all fun c => escapeChar c == [c]

/-- Whether a key is written without escapes, and says so. -/
def Key.isVerbatim : Key → Bool
  | plain text => Json.isVerbatim text
  | _ => false

theorem hasEscape_quoted {s : List Char} (h : s.all (fun c => escapeChar c == [c]) = true)
    (rest : List Char) : hasEscape (s.flatMap escapeChar ++ '"' :: rest) = false := by
  induction s with
  | nil => rfl
  | cons c s ih =>
    rw [List.all_cons, Bool.and_eq_true, beq_iff_eq] at h
    have hc : c ≠ '\\' := by
      rintro rfl
      cases h.1
    rw [List.flatMap_cons, h.1, List.append_assoc, List.singleton_append, hasEscape, ih h.2]
    simp [hc]

/-! ### Blanks -/

theorem toList_lineStart (level : Nat) :
    (lineStart level).toList = '\n' :: List.replicate (2 * level) ' ' := by
  simp [lineStart]

theorem skipBlanks_lineStart (level : Nat) (cs : List Char) :
    skipBlanks ((lineStart level).toList ++ cs) = skipBlanks cs := by
  have hblanks : ∀ n, skipBlanks (List.replicate n ' ' ++ cs) = skipBlanks cs := by
    intro n
    induction n with
    | zero => rfl
    | succ n ih =>
      rw [List.replicate_succ, List.cons_append, skipBlanks, if_pos (.inl rfl), ih]
  rw [toList_lineStart]
  exact hblanks _

theorem skipBlanks_comma (cs : List Char) : skipBlanks (',' :: cs) = ',' :: cs := rfl

/-- A reader of values drops the blanks before one. -/
theorem readValue_lineStart (depth level : Nat) (cs : List Char) :
    readValue depth ((lineStart level).toList ++ cs) = readValue depth cs := by
  cases depth with
  | zero => rfl
  | succ depth => rw [readValue, skipBlanks_lineStart, readValue]

/-! ### Numbers -/

/-- No digit, fraction or exponent follows. -/
def Ends (rest : List Char) : Prop := ∀ c ∈ rest.head?, c = ',' ∨ c = '\n'

theorem ends_nil : Ends [] := fun c hc => by cases hc

theorem digitRun_append {digits rest : List Char} (hdigits : ∀ c ∈ digits, c.isDigit = true)
    (hrest : Ends rest) : digitRun (digits ++ rest) = (digits, rest) := by
  have hstop : ∀ c ∈ rest.head?, c.isDigit = false := by
    intro c hc
    rcases hrest c hc with rfl | rfl <;> rfl
  rw [digitRun, List.takeWhile_append_of_pos hdigits, List.dropWhile_append_of_pos hdigits]
  cases rest with
  | nil => simp
  | cons c rest => simp [hstop c rfl]

theorem natOfDigits_toDigits (n : Nat) : natOfDigits (Nat.toDigits 10 n) = n := by
  have hdigits := Nat.ofDigitChars_ten_toDigits (n := n)
  rw [Nat.ofDigitChars_eq_foldl] at hdigits
  simp only [natOfDigits, Nat.mul_comm _ 10]
  exact hdigits

/-- The digits of a number begin with zero only if there is no other digit. -/
theorem head?_toDigits_ne_zero {n : Nat} (h : 0 < n) : (Nat.toDigits 10 n).head? ≠ some '0' := by
  induction n using Nat.strong_induction_on with
  | _ n ih =>
    rcases Nat.lt_or_ge n 10 with hlt | hge
    · have hdigit : ∀ m < 10, 0 < m → Nat.digitChar m ≠ '0' := by decide
      rw [Nat.toDigits_of_lt_base hlt, List.head?_cons, ne_eq, Option.some.injEq]
      exact hdigit n hlt h
    · rw [Nat.toDigits_of_base_le (by decide) hge,
        List.head?_append_of_ne_nil _ Nat.toDigits_ne_nil]
      exact ih (n / 10) (by omega) (by omega)

theorem wholePart?_toDigits (n : Nat) {rest : List Char} (hrest : Ends rest) :
    wholePart? (Nat.toDigits 10 n ++ rest) = some (Nat.toDigits 10 n, rest) := by
  have hrun := digitRun_append (fun c hc => Nat.isDigit_of_mem_toDigits (b := 10) (n := n)
    (by decide) (by decide) hc) hrest
  rw [wholePart?, hrun]
  rcases Nat.eq_zero_or_pos n with rfl | hn
  · rfl
  · have hhead := head?_toDigits_ne_zero hn
    rcases hdigits : Nat.toDigits 10 n with - | ⟨c, cs⟩
    · exact absurd hdigits Nat.toDigits_ne_nil
    · rw [hdigits, List.head?_cons] at hhead
      split <;> simp_all

theorem readNumber_toDigits (n : Nat) {rest : List Char} (hrest : Ends rest) :
    readNumber [] (Nat.toDigits 10 n ++ rest) = (nat n, some rest) := by
  have hfraction : fractionPart? rest = some ([], rest) := by
    rw [fractionPart?]
    rintro cs rfl
    rcases hrest '.' rfl with h | h <;> cases h
  have hexponent : exponentPart? rest = some ([], rest) := by
    rcases rest with - | ⟨c, - | ⟨d, cs⟩⟩
    · rfl
    all_goals rcases hrest c rfl with rfl | rfl <;> rfl
  simp only [readNumber, wholePart?_toDigits n hrest, hfraction, hexponent, natOfDigits_toDigits]
  rfl

/-! ### Values -/

mutual

/-- Whether the writer has forms of its own for all of the value. -/
def isPlain : Json → Bool
  | null => true
  | bool _ => true
  | nat _ => true
  | string _ => true
  | array items => arePlain items
  | object fields => fieldsArePlain fields
  | _ => false

/-- Whether all items are plain. -/
def arePlain : List Json → Bool
  | [] => true
  | v :: vs => v.isPlain && arePlain vs

/-- Whether all fields are plain. -/
def fieldsArePlain : List (Key × Json) → Bool
  | [] => true
  | (k, v) :: fs => k.isVerbatim && v.isPlain && fieldsArePlain fs

end

/-- What stands in a block behind an item, given the items that follow it. -/
def tailText (level : Nat) (closeMark : Char) : List String → List Char
  | [] => (lineStart level).toList ++ [closeMark]
  | s :: rest =>
    ',' :: ((lineStart (level + 1)).toList ++ (s.toList ++ tailText level closeMark rest))

theorem toList_block (openMark closeMark : Char) (level : Nat) (s : String) (rest : List String) :
    (block (String.singleton openMark) (String.singleton closeMark) level (s :: rest)).toList
      = openMark
        :: ((lineStart (level + 1)).toList ++ (s.toList ++ tailText level closeMark rest)) := by
  have htail : ∀ s, (",".intercalate ((s :: rest).map (lineStart (level + 1) ++ ·))).toList
      ++ ((lineStart level).toList ++ [closeMark])
        = (lineStart (level + 1)).toList ++ (s.toList ++ tailText level closeMark rest) := by
    induction rest with
    | nil =>
      intro s
      simp [tailText]
    | cons r rest ih =>
      intro s
      rw [List.map_cons, List.map_cons, String.intercalate_cons_cons, ← List.map_cons,
        String.toList_append, String.toList_append, List.append_assoc, ih r, tailText]
      simp
  rw [block, ← htail]
  · simp
  · simp

theorem length_tailText_pos (level : Nat) (closeMark : Char) (items : List String) :
    0 < (tailText level closeMark items).length := by
  cases items <;> simp [tailText]

/-- Behind an item a number ends. -/
theorem ends_tailText (level : Nat) (closeMark : Char) (items : List String) (rest : List Char) :
    Ends (tailText level closeMark items ++ rest) := by
  intro c hc
  cases items with
  | nil =>
    rw [tailText, toList_lineStart] at hc
    exact .inr (Option.some.inj hc).symm
  | cons s items => exact .inl (Option.some.inj hc).symm

/-- What holds of scalars, of a list whenever it holds of all its items, and of an object whenever
it holds of the values of all its fields, holds of every value. -/
@[elab_as_elim]
theorem induction {P : Json → Prop} (null : P .null) (bool : ∀ b, P (.bool b))
    (nat : ∀ n, P (.nat n)) (number : ∀ s, P (.number s)) (string : ∀ s, P (.string s))
    (garbled : P .garbled) (array : ∀ items, (∀ v ∈ items, P v) → P (.array items))
    (object : ∀ fields, (∀ f ∈ fields, P f.2) → P (.object fields)) (broken : P .broken)
    (v : Json) : P v := by
  refine @Json.rec P (fun items => ∀ v ∈ items, P v) (fun fields => ∀ f ∈ fields, P f.2)
    (fun f => P f.2) null bool nat number string garbled array object broken ?_ ?_ ?_ ?_ ?_ v
  · exact List.forall_mem_nil _
  · intro v vs hv hvs
    exact List.forall_mem_cons.mpr ⟨hv, hvs⟩
  · intro f hf
    cases hf
  · intro f fs hf hfs g hg
    rcases List.mem_cons.mp hg with rfl | hg
    · exact hf
    · exact hfs g hg
  · intro k v hv
    exact hv

/-- The text begins with a character that is no blank and no closing bracket. -/
def Starts (text : List Char) : Prop :=
  ∃ c cs, text = c :: cs ∧ c ≠ ']' ∧ ∀ more, skipBlanks (c :: more) = c :: more

theorem starts_toDigits (n : Nat) : Starts (Nat.toDigits 10 n) := by
  rcases hdigits : Nat.toDigits 10 n with - | ⟨c, cs⟩
  · exact absurd hdigits Nat.toDigits_ne_nil
  · have hc : c.isDigit = true :=
      Nat.isDigit_of_mem_toDigits (by decide) (by decide) (hdigits ▸ List.mem_cons_self)
    refine ⟨c, cs, rfl, ?_, fun more => ?_⟩
    · rintro rfl
      cases hc
    · rw [skipBlanks, if_neg]
      rintro (rfl | rfl | rfl | rfl) <;> cases hc

theorem toList_toString (n : Nat) : (toString n).toList = Nat.toDigits 10 n := by
  rw [Nat.toString_eq_ofList_toDigits, String.toList_ofList]

/-- Digits stand for themselves. -/
theorem isVerbatim_toString (n : Nat) : isVerbatim (toString n) := by
  rw [isVerbatim, toList_toString, List.all_eq_true]
  intro c hc
  have hdigit : c.isDigit = true := Nat.isDigit_of_mem_toDigits (by decide) (by decide) hc
  have hge : 0x20 ≤ c.toNat := by
    have hle : (48 : UInt32) ≤ c.val := by
      rw [Char.isDigit, Bool.and_eq_true, decide_eq_true_eq] at hdigit
      exact hdigit.1
    exact Nat.le_trans (by decide) (UInt32.le_iff_toNat_le.mp hle)
  have hne : ∀ d : Char, d.isDigit = false → c ≠ d := by
    rintro d hd rfl
    rw [hdigit] at hd
    cases hd
  rw [escapeChar, if_neg (hne _ rfl), if_neg (hne _ rfl), if_neg (hne _ rfl), if_neg (hne _ rfl),
    if_neg (hne _ rfl), if_neg (hne _ rfl), if_neg (hne _ rfl), if_neg (Nat.not_lt.mpr hge),
    beq_self_eq_true]

theorem starts_prettyAt (v : Json) (level : Nat) (h : v.isPlain) :
    Starts (v.prettyAt level).toList := by
  cases v with
  | null => exact ⟨'n', "ull".toList, by simp [prettyAt, compact], by decide, fun _ => rfl⟩
  | bool b =>
    cases b with
    | false => exact ⟨'f', "alse".toList, by simp [prettyAt, compact], by decide, fun _ => rfl⟩
    | true => exact ⟨'t', "rue".toList, by simp [prettyAt, compact], by decide, fun _ => rfl⟩
  | nat n =>
    show Starts (toString n).toList
    rw [toList_toString]
    exact starts_toDigits n
  | string s =>
    exact ⟨'"', _, toList_quote s, by decide, fun _ => rfl⟩
  | array items =>
    cases items with
    | nil => exact ⟨'[', [']'], by simp [prettyAt, prettyAll, block], by decide, fun _ => rfl⟩
    | cons v vs => exact ⟨'[', _, toList_block '[' ']' level _ _, by decide, fun _ => rfl⟩
  | object fields =>
    cases fields with
    | nil =>
      exact ⟨'\x7b', ['\x7d'], by simp [prettyAt, prettyFields, block], by decide, fun _ => rfl⟩
    | cons f fs => exact ⟨'\x7b', _, toList_block '\x7b' '\x7d' level _ _, by decide, fun _ => rfl⟩
  | number s => cases h
  | garbled => cases h
  | broken => cases h

/-- The text of the value is read as the value, with what stands behind it left over, if the depth
allowed is at least twice the length of the text. -/
def Reads (v : Json) : Prop :=
  ∀ level depth rest, Ends rest → 2 * (v.prettyAt level).toList.length ≤ depth →
    readValue depth ((v.prettyAt level).toList ++ rest) = (v, some rest)

theorem readItems_lineStart (depth level : Nat) (cs : List Char) :
    readItems depth ((lineStart level).toList ++ cs) = readItems depth cs := by
  cases depth with
  | zero => rfl
  | succ depth => rw [readItems, readValue_lineStart, readItems]

theorem readFields_lineStart (depth level : Nat) (cs : List Char) :
    readFields depth ((lineStart level).toList ++ cs) = readFields depth cs := by
  cases depth with
  | zero => rfl
  | succ depth => rw [readFields, readKey, skipBlanks_lineStart, readFields, readKey]

/-- The items of a list that is not empty, read one after the other. -/
theorem readItems_prettyAll {v : Json} {vs : List Json} (h : ∀ w ∈ v :: vs, w.Reads)
    {level depth : Nat} (rest : List Char)
    (hdepth : 2 * ((v.prettyAt (level + 1)).toList
      ++ tailText level ']' (prettyAll (level + 1) vs)).length ≤ depth) :
    readItems depth ((v.prettyAt (level + 1)).toList
      ++ (tailText level ']' (prettyAll (level + 1) vs) ++ rest)) = (v :: vs, some rest) := by
  induction vs generalizing v depth with
  | nil =>
    have htail := length_tailText_pos level ']' (prettyAll (level + 1) [])
    rw [List.length_append] at hdepth
    obtain ⟨depth, rfl⟩ : ∃ n, depth = n + 1 := ⟨depth - 1, by omega⟩
    rw [readItems, h v List.mem_cons_self (level + 1) depth _ (ends_tailText level ']' _ rest)
      (by omega)]
    simp only [prettyAll, tailText, List.append_assoc, skipBlanks_lineStart]
    rfl
  | cons w ws ih =>
    rw [prettyAll, tailText, List.length_append, List.length_cons, List.length_append] at hdepth
    obtain ⟨depth, rfl⟩ : ∃ n, depth = n + 1 := ⟨depth - 1, by omega⟩
    rw [readItems, h v List.mem_cons_self (level + 1) depth _ (ends_tailText level ']' _ rest)
      (by omega)]
    simp only [prettyAll, tailText, List.append_assoc, List.cons_append, skipBlanks_comma]
    rw [readItems_lineStart, ih (fun x hx => h x (List.mem_cons_of_mem v hx)) (by omega)]

/-- The text of a field. -/
def fieldText (level : Nat) (name : String) (v : Json) : List Char :=
  (quote name).toList ++ ':' :: ' ' :: (v.prettyAt level).toList

theorem prettyFields_cons (level : Nat) (name : String) (v : Json) (fs : List (Key × Json)) :
    ∃ s, s.toList = fieldText level name v ∧
      prettyFields level ((.plain name, v) :: fs) = s :: prettyFields level fs := by
  refine ⟨quoteKey (.plain name) ++ ": " ++ v.prettyAt level, ?_, ?_⟩
  · simp [fieldText, quoteKey, Key.text?]
  · rw [prettyFields]

theorem readKey_quote {name : String} (h : isVerbatim name) (rest : List Char) :
    readKey ((quote name).toList ++ rest) = some (.plain name, rest) := by
  have hquote : (quote name).toList ++ rest
      = '"' :: (name.toList.flatMap escapeChar ++ '"' :: rest) := by
    rw [toList_quote]
    simp
  have hskip : ∀ cs, skipBlanks ('"' :: cs) = '"' :: cs := fun _ => rfl
  simp only [hquote, readKey, hskip, stringUnits_quoted, textOfUnits?_map_toNat,
    hasEscape_quoted h, String.ofList_toList, if_neg Bool.false_ne_true]

theorem readValue_blank (depth : Nat) (cs : List Char) :
    readValue depth (' ' :: cs) = readValue depth cs := by
  cases depth with
  | zero => rfl
  | succ depth => rw [readValue, skipBlanks, if_pos (.inl rfl), readValue]

/-- A field is read up to the mark behind it. -/
theorem readFields_fieldText {name : String} (hname : isVerbatim name) {v : Json} (hv : v.Reads)
    {level depth : Nat} {rest : List Char} (hrest : Ends rest)
    (hdepth : 2 * (fieldText level name v).length ≤ depth) :
    readFields (depth + 1) (fieldText level name v ++ rest)
      = match skipBlanks rest with
        | '\x7d' :: rest => ([(.plain name, v)], some rest)
        | ',' :: rest => let (fs, rest) := readFields depth rest; ((.plain name, v) :: fs, rest)
        | _ => ([(.plain name, v), (.garbled, broken)], none) := by
  rw [fieldText, List.length_append, List.length_cons, List.length_cons] at hdepth
  have hskip : ∀ cs, skipBlanks (':' :: cs) = ':' :: cs := fun _ => rfl
  have hvalue := hv level depth rest hrest (by omega)
  rw [← readValue_blank] at hvalue
  rw [readFields, fieldText, List.append_assoc, readKey_quote hname]
  simp only [List.cons_append, hskip]
  generalize readValue depth (' ' :: ((v.prettyAt level).toList ++ rest)) = value at hvalue ⊢
  subst hvalue
  rfl

theorem exists_of_fieldsArePlain {key : Key} {v : Json} {fs : List (Key × Json)}
    (h : fieldsArePlain ((key, v) :: fs)) : ∃ name, key = .plain name ∧ isVerbatim name := by
  rw [fieldsArePlain, Bool.and_eq_true, Bool.and_eq_true] at h
  cases key with
  | plain name => exact ⟨name, rfl, h.1.1⟩
  | escaped text => cases h.1.1
  | garbled => cases h.1.1

/-- The fields of an object that is not empty, read one after the other. -/
theorem readFields_prettyFields {name : String} {v : Json} {fs : List (Key × Json)}
    (h : ∀ f ∈ (.plain name, v) :: fs, f.2.Reads)
    (hplain : fieldsArePlain ((.plain name, v) :: fs)) {level depth : Nat} (rest : List Char)
    (hdepth : 2 * (fieldText (level + 1) name v
      ++ tailText level '\x7d' (prettyFields (level + 1) fs)).length ≤ depth) :
    readFields depth (fieldText (level + 1) name v
      ++ (tailText level '\x7d' (prettyFields (level + 1) fs) ++ rest))
        = ((.plain name, v) :: fs, some rest) := by
  induction fs generalizing name v depth with
  | nil =>
    have hv : v.Reads := h (.plain name, v) List.mem_cons_self
    have htail := length_tailText_pos level '\x7d' (prettyFields (level + 1) [])
    rw [List.length_append] at hdepth
    obtain ⟨depth, rfl⟩ : ∃ n, depth = n + 1 := ⟨depth - 1, by omega⟩
    rw [fieldsArePlain, Bool.and_eq_true, Bool.and_eq_true] at hplain
    rw [readFields_fieldText hplain.1.1 hv
      (ends_tailText level '\x7d' _ rest) (by omega)]
    simp only [prettyFields, tailText, List.append_assoc, skipBlanks_lineStart]
    rfl
  | cons f fs ih =>
    have hv : v.Reads := h (.plain name, v) List.mem_cons_self
    rw [fieldsArePlain, Bool.and_eq_true, Bool.and_eq_true] at hplain
    obtain ⟨key, w⟩ := f
    obtain ⟨next, rfl, -⟩ := exists_of_fieldsArePlain hplain.2
    obtain ⟨s, hs, hcons⟩ := prettyFields_cons (level + 1) next w fs
    rw [hcons, tailText, hs, List.length_append, List.length_cons, List.length_append] at hdepth
    obtain ⟨depth, rfl⟩ : ∃ n, depth = n + 1 := ⟨depth - 1, by omega⟩
    rw [readFields_fieldText hplain.1.1 hv (ends_tailText level '\x7d' _ rest) (by omega), hcons,
      tailText, hs]
    simp only [List.cons_append, List.append_assoc, skipBlanks_comma]
    rw [readFields_lineStart, ih (fun g hg => h g (List.mem_cons_of_mem _ hg)) hplain.2 (by omega)]

theorem isPlain_of_mem {v : Json} {items : List Json} (h : arePlain items) (hv : v ∈ items) :
    v.isPlain := by
  induction items with
  | nil => cases hv
  | cons w ws ih =>
    rw [arePlain, Bool.and_eq_true] at h
    rcases List.mem_cons.mp hv with rfl | hv
    · exact h.1
    · exact ih h.2 hv

theorem isPlain_of_mem_fields {f : Key × Json} {fields : List (Key × Json)}
    (h : fieldsArePlain fields) (hf : f ∈ fields) : f.2.isPlain := by
  induction fields with
  | nil => cases hf
  | cons g gs ih =>
    rw [fieldsArePlain, Bool.and_eq_true, Bool.and_eq_true] at h
    rcases List.mem_cons.mp hf with rfl | hf
    · exact h.1.2
    · exact ih h.2 hf

/-- A number is read by its digits. -/
theorem readValue_toDigits (n depth : Nat) {rest : List Char} (hrest : Ends rest) :
    readValue (depth + 1) (Nat.toDigits 10 n ++ rest) = (nat n, some rest) := by
  rw [← readNumber_toDigits n hrest]
  obtain ⟨c, cs, hcs, -, hskip⟩ := starts_toDigits n
  have hc : c.isDigit = true :=
    Nat.isDigit_of_mem_toDigits (by decide) (by decide) (hcs ▸ List.mem_cons_self)
  rw [hcs, List.cons_append, readValue, hskip]
  -- none of the other ways in which a value can begin is a digit
  split
  case h_8 => rfl
  all_goals
    rename_i heq
    obtain ⟨rfl, -⟩ := List.cons.inj heq
    cases hc

/-- The text of a value is not empty, so some depth is allowed. -/
theorem reads_of_succ {v : Json} (hplain : v.isPlain)
    (h : ∀ level depth rest, Ends rest → 2 * (v.prettyAt level).toList.length ≤ depth + 1 →
      readValue (depth + 1) ((v.prettyAt level).toList ++ rest) = (v, some rest)) : v.Reads := by
  intro level depth rest hrest hdepth
  cases depth with
  | zero =>
    obtain ⟨c, cs, hcs, -⟩ := starts_prettyAt v level hplain
    rw [hcs, List.length_cons] at hdepth
    omega
  | succ depth => exact h level depth rest hrest hdepth

theorem toList_prettyAt_array (level : Nat) (v : Json) (vs : List Json) :
    ((array (v :: vs)).prettyAt level).toList
      = '[' :: ((lineStart (level + 1)).toList ++ ((v.prettyAt (level + 1)).toList
          ++ tailText level ']' (prettyAll (level + 1) vs))) :=
  toList_block '[' ']' level (v.prettyAt (level + 1)) (prettyAll (level + 1) vs)

theorem toList_prettyAt_object (level : Nat) (name : String) (v : Json) (fs : List (Key × Json)) :
    ((object ((.plain name, v) :: fs)).prettyAt level).toList
      = '\x7b' :: ((lineStart (level + 1)).toList ++ (fieldText (level + 1) name v
          ++ tailText level '\x7d' (prettyFields (level + 1) fs))) := by
  obtain ⟨s, hs, hcons⟩ := prettyFields_cons (level + 1) name v fs
  rw [prettyAt, hcons, ← hs]
  exact toList_block '\x7b' '\x7d' level s (prettyFields (level + 1) fs)

theorem readValue_bracket (depth : Nat) (cs : List Char) :
    readValue (depth + 1) ('[' :: cs)
      = match skipBlanks cs with
        | ']' :: rest => (array [], some rest)
        | rest => let (items, rest) := readItems depth rest; (array items, rest) := rfl

theorem readValue_brace (depth : Nat) (cs : List Char) :
    readValue (depth + 1) ('\x7b' :: cs)
      = match skipBlanks cs with
        | '\x7d' :: rest => (object [], some rest)
        | rest => let (fields, rest) := readFields depth rest; (object fields, rest) := rfl

/-- A list that is not empty is read as its items are. -/
theorem readValue_array (depth level : Nat) {v : Json} (hv : v.isPlain) (vs : List Json)
    (rest : List Char) :
    readValue (depth + 1) (((array (v :: vs)).prettyAt level).toList ++ rest)
      = let (items, rest) := readItems depth ((v.prettyAt (level + 1)).toList
          ++ (tailText level ']' (prettyAll (level + 1) vs) ++ rest))
        (array items, rest) := by
  obtain ⟨c, cs, hcs, hc, hskip⟩ := starts_prettyAt v (level + 1) hv
  rw [toList_prettyAt_array, List.cons_append, List.append_assoc, List.append_assoc, hcs,
    List.cons_append, readValue_bracket, skipBlanks_lineStart, hskip]
  split
  · rename_i heq
    exact absurd (List.cons.inj heq).1 hc
  · rfl

/-- An object that is not empty is read as its fields are. -/
theorem readValue_object (depth level : Nat) (name : String) (v : Json) (fs : List (Key × Json))
    (rest : List Char) :
    readValue (depth + 1) (((object ((.plain name, v) :: fs)).prettyAt level).toList ++ rest)
      = let (fields, rest) := readFields depth (fieldText (level + 1) name v
          ++ (tailText level '\x7d' (prettyFields (level + 1) fs) ++ rest))
        (object fields, rest) := by
  rw [toList_prettyAt_object, List.cons_append, List.append_assoc, List.append_assoc, fieldText,
    toList_quote, readValue_brace, skipBlanks_lineStart]
  rfl

theorem reads_of_isPlain {v : Json} (h : v.isPlain) : v.Reads := by
  induction v using Json.induction with
  | number s => cases h
  | garbled => cases h
  | broken => cases h
  | null =>
    refine reads_of_succ h fun level depth rest _ _ => ?_
    simp only [prettyAt, compact]
    rfl
  | bool b =>
    refine reads_of_succ h fun level depth rest _ _ => ?_
    simp only [prettyAt, compact]
    cases b <;> rfl
  | nat n =>
    refine reads_of_succ h fun level depth rest hrest _ => ?_
    simp only [prettyAt, compact, toList_toString]
    exact readValue_toDigits n depth hrest
  | string s =>
    refine reads_of_succ h fun level depth rest _ _ => ?_
    simp only [prettyAt, compact, toList_quote, List.cons_append, List.append_assoc,
      List.nil_append]
    exact readString_quoted s rest
  | array items ih =>
    refine reads_of_succ h fun level depth rest _ hdepth => ?_
    cases items with
    | nil =>
      simp only [prettyAt, prettyAll, block]
      rfl
    | cons v vs =>
      have hplain : ∀ w ∈ v :: vs, w.isPlain := fun w hw => isPlain_of_mem h hw
      rw [toList_prettyAt_array, List.length_cons, List.length_append] at hdepth
      rw [readValue_array depth level (hplain v List.mem_cons_self),
        readItems_prettyAll (fun w hw => ih w hw (hplain w hw)) rest (by omega)]
  | object fields ih =>
    refine reads_of_succ h fun level depth rest _ hdepth => ?_
    cases fields with
    | nil =>
      simp only [prettyAt, prettyFields, block]
      rfl
    | cons f fs =>
      obtain ⟨key, v⟩ := f
      obtain ⟨name, rfl, -⟩ := exists_of_fieldsArePlain h
      rw [toList_prettyAt_object, List.length_cons, List.length_append] at hdepth
      rw [readValue_object, readFields_prettyFields
        (fun g hg => ih g hg (isPlain_of_mem_fields h hg)) h rest (by omega)]

/-- **What is written can be read.**  The text of a plain value over several lines reads as that
value, and nothing is left of it. -/
theorem parse_pretty {v : Json} (h : v.isPlain) : parse v.pretty = (v, true) := by
  have hreads := reads_of_isPlain h 0 (2 * v.pretty.toList.length + 2) [] ends_nil
    (Nat.le_add_right _ _)
  rw [List.append_nil] at hreads
  have hvalue : readValue (2 * v.pretty.toList.length + 2) v.pretty.toList = (v, some []) := hreads
  simp only [parse, hvalue, skipBlanks, List.isEmpty_nil]

end TreeLint.Json
