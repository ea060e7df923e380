/-
TreeLint/Text/Fixed.lean

Numbers with a fixed count of decimal places.  The exact value of a binary
floating-point number is rounded to the nearest multiple of the last place; a
tie goes to the even neighbour.
-/

namespace TreeLint.Text

/-- The quotient rounded to the nearest whole number, a tie to the even one. -/
def roundDiv (num den : Nat) : Nat :=
  let q := num / den
  let twice := 2 * (num % den)
  if twice < den then q
  else if twice > den then q + 1
  else if q % 2 = 0 then q
  else q + 1

/-- The significand and the binary exponent of a finite number that is not negative. -/
def decompose (x : Float) : Nat × Int :=
  let bits := x.toBits.toNat % Nat.pow 2 63
  let exponent := bits / Nat.pow 2 52
  let fraction := bits % Nat.pow 2 52
  if exponent = 0 then (fraction, -1074) else (fraction + Nat.pow 2 52, Int.ofNat exponent - 1075)

/-- A whole number of `places`-th decimal parts. -/
def scaled (places : Nat) (x : Float) : Nat :=
  let (significand, exponent) := decompose x
  if 0 ≤ exponent then significand * Nat.pow 2 exponent.toNat * Nat.pow 10 places
  else roundDiv (significand * Nat.pow 10 places) (Nat.pow 2 (-exponent).toNat)

/-- Zeros in front of a text up to a length. -/
def padZeros (length : Nat) (s : String) : String :=
  String.ofList (List.replicate (length - s.length) '0') ++ s

/-- A finite number that is not negative, with `places` decimal places, at least one. -/
def fixed (places : Nat) (x : Float) : String :=
  let n := scaled places x
  let unit := Nat.pow 10 places
  toString (n / unit) ++ "." ++ padZeros places (toString (n % unit))

/-! ### Columns -/

/-- Blanks behind a text up to a width. -/
def padRight (width : Nat) (s : String) : String :=
  s ++ String.ofList (List.replicate (width - s.length) ' ')

/-- Blanks in front of a text up to a width. -/
def padLeft (width : Nat) (s : String) : String :=
  String.ofList (List.replicate (width - s.length) ' ') ++ s

/-- The same text several times. -/
def times (n : Nat) (s : String) : String :=
  String.join (List.replicate n s)

end TreeLint.Text
