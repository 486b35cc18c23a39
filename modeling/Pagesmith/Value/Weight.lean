import Pagesmith.Value.Basic

/-!
The weight of a numeric value, for comparing whole numbers with binary ones. Weights are exact; the
two infinities lie below and above all numbers.
-/

namespace Pagesmith

/-- A number, or an infinity. -/
inductive Weight where
  | low
  | number (r : Rat)
  | high
deriving DecidableEq

/-- One weight is less than another. -/
def Weight.isLess : Weight → Weight → Bool
  | low, low => false
  | low, _ => true
  | number a, number b => a < b
  | number _, high => true
  | _, _ => false

/-- The weight of a binary number, if it is one. -/
def Binary64.weight? : Binary64 → Option Weight
  | finite negative m e =>
    let magnitude : Rat := if 0 ≤ e then m * 2 ^ e.toNat else m / 2 ^ (-e).toNat
    some (.number (if negative then -magnitude else magnitude))
  | infinite negative => some (if negative then .low else .high)
  | nan => none

/-- The weight of a value, if it is a number. -/
def Value.weight? : Value → Option Weight
  | .int n => some (.number n)
  | .bool b => some (.number (if b then 1 else 0))
  | .float x => x.weight?
  | _ => none

end Pagesmith
