/-!
Binary numbers of 53 significant bits, as exact values. A finite number is
`± significand * 2 ^ exponent` in the one form where the significand is below `2 ^ 53`, the
exponent at least `-1074`, and one of them as large as it can be; so equal numbers of one sign
are equal as data. `ofDecimal` gives the number nearest to a decimal, ties going to the even
significand.
-/

namespace Pagesmith

/-- A binary number of 53 significant bits, an infinity, or no number. -/
inductive Binary64 where
  | nan
  | infinite (negative : Bool)
  | finite (negative : Bool) (significand : Nat) (exponent : Int)
deriving DecidableEq

namespace Binary64

/-- The number is a zero of either sign. -/
def isZero : Binary64 → Bool
  | finite _ m _ => m == 0
  | _ => false

/-- The number is neither an infinity nor missing. -/
def isFinite : Binary64 → Bool
  | finite .. => true
  | _ => false

/-- The sign bit. -/
def isNegative : Binary64 → Bool
  | nan => false
  | infinite negative => negative
  | finite negative .. => negative

/-- The zero of a sign. -/
def zero (negative : Bool) : Binary64 := finite negative 0 (-1074)

/-- The quotient rounded to the nearest natural number, a tie to the even one. -/
def roundQuotient (num den : Nat) : Nat :=
  let q := num / den
  let r := num % den
  if den < 2 * r || (2 * r == den && q % 2 == 1) then q + 1 else q

/-- Numerator and denominator of `num / den * 2 ^ (-e)`. -/
def scaleDown (num den : Nat) (e : Int) : Nat × Nat :=
  if 0 ≤ e then (num, den * Nat.pow 2 e.toNat) else (num * Nat.pow 2 (-e).toNat, den)

/-- The number nearest to the positive quotient `num / den`. -/
def ofQuotient (negative : Bool) (num den : Nat) : Binary64 :=
  let low := max ((num.log2 : Int) - den.log2 - 53) (-1074)
  let (n, d) := scaleDown num den low
  let e := if Nat.pow 2 53 ≤ n / d then low + 1 else low
  let (n, d) := scaleDown num den e
  let m := roundQuotient n d
  let (m, e) := if m == Nat.pow 2 53 then (Nat.pow 2 52, e + 1) else (m, e)
  if 971 < e then infinite negative else finite negative m e

/-- The number nearest to `± digits * 10 ^ exponent`. -/
def ofDecimal (negative : Bool) (digits : Nat) (exponent : Int) : Binary64 :=
  let size := ((Nat.toDigits 10 digits).length : Int) + exponent
  if digits == 0 || size < -330 then zero negative
  else if 310 < size then infinite negative
  else if 0 ≤ exponent then ofQuotient negative (digits * Nat.pow 10 exponent.toNat) 1
  else ofQuotient negative digits (Nat.pow 10 (-exponent).toNat)

/-- The integer part, for a finite number. -/
def truncate? : Binary64 → Option Int
  | finite negative m e =>
    let magnitude := if 0 ≤ e then m * Nat.pow 2 e.toNat else m / Nat.pow 2 (-e).toNat
    some (if negative then -(magnitude : Int) else magnitude)
  | _ => none

end Binary64

end Pagesmith
