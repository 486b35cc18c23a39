import Pagesmith.Number.Binary64

/-!
The shortest decimal of a binary number: the fewest digits that read back as the number, and
among those the decimal nearest to it. On the grid of `n` digits only the two neighbours of the
number need a test, so the search goes through `n = 1, … , 17`.
-/

namespace Pagesmith

/-- A positive decimal `digits * 10 ^ exponent`. -/
structure Decimal where
  digits : Nat
  exponent : Int
deriving DecidableEq

namespace Decimal

/-- The decimal digits, most significant first. -/
def digitChars (d : Decimal) : List Char := Nat.toDigits 10 d.digits

/-- The same decimal without zeros at the end of its digits. -/
def trimmed (d : Decimal) : List Char × Int :=
  let cs := d.digitChars
  let kept := (cs.reverse.dropWhile (· == '0')).reverse
  (kept, d.exponent + (cs.length - kept.length : Nat))

end Decimal

namespace Binary64

/-- The reals that round to `significand * 2 ^ exponent`, as numerators over one denominator. -/
structure Interval where
  low : Nat
  mid : Nat
  high : Nat
  den : Nat
  closed : Bool

/-- The interval of a positive finite number. Below a power of two the gap is half as wide. -/
def interval (m : Nat) (e : Int) : Interval :=
  let gap := if m == Nat.pow 2 52 && -1074 < e then 1 else 2
  let up := if 2 ≤ e then Nat.pow 2 (e - 2).toNat else 1
  let den := if 2 ≤ e then 1 else Nat.pow 2 (2 - e).toNat
  ⟨(4 * m - gap) * up, 4 * m * up, (4 * m + 2) * up, den, m % 2 == 0⟩

def Interval.holds (i : Interval) (d : Decimal) : Bool :=
  let num :=
    if 0 ≤ d.exponent then d.digits * Nat.pow 10 d.exponent.toNat * i.den else d.digits * i.den
  let scale := if 0 ≤ d.exponent then 1 else Nat.pow 10 (-d.exponent).toNat
  if i.closed then i.low * scale ≤ num && num ≤ i.high * scale
  else i.low * scale < num && num < i.high * scale

/-- The upper neighbour is the nearer one, or the even one at equal distance, where the lower one
is a quotient by `d` with remainder `r`. -/
def nearerUp (lowDigits r d : Nat) : Bool :=
  d < 2 * r || (2 * r == d && lowDigits % 2 == 1)

/-- The power of ten just above the number: `10 ^ (p - 1) ≤ x < 10 ^ p`. -/
def decimalPoint (i : Interval) : Int :=
  ((Nat.toDigits 10 (i.mid * Nat.pow 10 400 / i.den)).length : Int) - 400

/-- The better neighbour of the number on the grid `10 ^ exponent`, if one lies in the interval. -/
def onGrid? (i : Interval) (exponent : Int) : Option Decimal :=
  let num := if 0 ≤ exponent then i.mid else i.mid * Nat.pow 10 (-exponent).toNat
  let den := if 0 ≤ exponent then i.den * Nat.pow 10 exponent.toNat else i.den
  let low : Decimal := ⟨num / den, exponent⟩
  let high : Decimal := ⟨num / den + 1, exponent⟩
  match i.holds low && 0 < low.digits, i.holds high with
  | true, true => some (if nearerUp low.digits (num % den) den then high else low)
  | true, false => some low
  | false, true => some high
  | false, false => none

/-- The first grid with a hit, from `n` digits on; seventeen digits always suffice. -/
def shortestFrom (i : Interval) (point : Int) : (more : Nat) → (n : Nat) → Decimal
  | 0, n => ⟨i.mid * Nat.pow 10 (n - point).toNat / i.den, point - n⟩
  | more + 1, n => (onGrid? i (point - n)).getD (shortestFrom i point more (n + 1))

def shortest (m : Nat) (e : Int) : Decimal :=
  let i := interval m e
  shortestFrom i (decimalPoint i) 17 1

/-- The exponent of scientific notation: a sign and at least two digits. -/
def exponentText (e : Int) : List Char :=
  let ds := Nat.toDigits 10 e.natAbs
  'e' :: (if e < 0 then '-' else '+') :: (if ds.length < 2 then '0' :: ds else ds)

/-- Digits with the decimal point after `point` of them: positional from `10 ^ -4` to below
`10 ^ 16`, with at least one digit on either side of the point, and scientific otherwise. -/
def placePoint (ds : List Char) (point : Int) : List Char :=
  if point < -3 || 16 < point then
    match ds with
    | [] => []
    | [d] => d :: exponentText (point - 1)
    | d :: r => d :: '.' :: r ++ exponentText (point - 1)
  else if point ≤ 0 then '0' :: '.' :: List.replicate (-point).toNat '0' ++ ds
  else if ds.length ≤ point.toNat then
    ds ++ List.replicate (point.toNat - ds.length) '0' ++ ['.', '0']
  else ds.take point.toNat ++ '.' :: ds.drop point.toNat

/-- The text of a finite number without its sign. -/
def magnitudeText (m : Nat) (e : Int) : List Char :=
  if m == 0 then ['0', '.', '0']
  else
    let (ds, exponent) := (shortest m e).trimmed
    placePoint ds (exponent + ds.length)

/-- How the two kinds that are no finite numbers are spelt. -/
structure Spelling where
  nan : String
  infinity : String

/-- The text of a number: the shortest decimal that reads back as it. -/
def text (spelling : Spelling) : Binary64 → String
  | nan => spelling.nan
  | infinite negative => if negative then "-" ++ spelling.infinity else spelling.infinity
  | finite negative m e =>
    String.ofList (if negative then '-' :: magnitudeText m e else magnitudeText m e)

end Binary64

end Pagesmith
