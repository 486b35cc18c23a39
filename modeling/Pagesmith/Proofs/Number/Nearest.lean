import Mathlib.Algebra.Order.Field.Power
import Mathlib.Data.Nat.Cast.Order.Field
import Mathlib.Tactic.FieldSimp
import Mathlib.Tactic.Linarith
import Mathlib.Tactic.Positivity
import Mathlib.Tactic.NormNum
import Mathlib.Tactic.Ring
import Pagesmith.Number.Binary64

/-!
The nearest binary number. Around each number lie the rationals that round to it, a half of the gap to the next
number on either side; whatever quotient or decimal is given for one of them, the number made of it is that
number.
-/

namespace Pagesmith.Binary64

/-- The one form that a number has: its significand fits, and its exponent is as small as it can be. -/
def IsCanonical : Binary64 → Prop
  | finite _ m e => m < 2 ^ 53 ∧ -1074 ≤ e ∧ e ≤ 971 ∧ (2 ^ 52 ≤ m ∨ e = -1074)
  | nan | infinite _ => True

/-- The gap below a number, in halves of the gap above it. -/
def gapBelow (m : Nat) (e : Int) : Nat := if m == Nat.pow 2 52 && -1074 < e then 1 else 2

theorem gapBelow_le (m : Nat) (e : Int) : gapBelow m e ≤ 2 := by
  rw [gapBelow]
  split <;> decide

theorem gapBelow_of_ne {m : Nat} (other : m ≠ 2 ^ 52) (e : Int) : gapBelow m e = 2 := by
  have apart : (m == Nat.pow 2 52) = false := beq_false_of_ne other
  rw [gapBelow, apart]
  rfl

theorem gapBelow_power {e : Int} (later : -1074 < e) : gapBelow (2 ^ 52) e = 1 := by
  rw [gapBelow, if_pos]
  simpa using later

/-- The rational rounds to `m * 2 ^ e`: it lies half a gap away at most, and nearer if `m` is odd. -/
structure Rounds (x : ℚ) (m : Nat) (e : Int) : Prop where
  below : (m - gapBelow m e / 4 : ℚ) ≤ x * 2 ^ (-e)
  above : x * 2 ^ (-e) ≤ (m + 1 / 2 : ℚ)
  apart : m % 2 = 1 → (m - gapBelow m e / 4 : ℚ) < x * 2 ^ (-e) ∧ x * 2 ^ (-e) < (m + 1 / 2 : ℚ)

/-- The exponent of the numbers next to `x`: their significands fit, and it is as small as it can be. -/
structure Scales (x : ℚ) (e : Int) : Prop where
  least : -1074 ≤ e
  fits : x < 2 ^ (53 + e)
  normal : 2 ^ (52 + e) ≤ x ∨ e = -1074

section Scale

variable {x : ℚ}

theorem scaled_lt (k e : Int) : x * 2 ^ (-e) < 2 ^ k ↔ x < 2 ^ (k + e) := by
  rw [zpow_neg, ← div_eq_mul_inv, div_lt_iff₀ (by positivity), ← zpow_add₀ (by norm_num)]

theorem le_scaled (k e : Int) : 2 ^ k ≤ x * 2 ^ (-e) ↔ 2 ^ (k + e) ≤ x := by
  rw [zpow_neg, ← div_eq_mul_inv, le_div_iff₀ (by positivity), ← zpow_add₀ (by norm_num)]

theorem Scales.unique {e e' : Int} (h : Scales x e) (h' : Scales x e') : e = e' := by
  have least {e e' : Int} (h : Scales x e) (h' : Scales x e') : e' ≤ e := by
    by_contra less
    obtain above | last := h'.normal
    · have powers : (2 : ℚ) ^ (53 + e) ≤ 2 ^ (52 + e') := zpow_le_zpow_right₀ (by norm_num) (by omega)
      exact absurd h.fits (not_lt.2 (powers.trans above))
    · have := h.least
      omega
  exact le_antisymm (least h' h) (least h h')

end Scale

section Quotient

variable {num den : Nat}

theorem le_quotient (given : 0 < den) (k : Nat) : k ≤ num / den ↔ (k : ℚ) ≤ (num : ℚ) / den := by
  rw [Nat.le_div_iff_mul_le given, le_div_iff₀ (by exact_mod_cast given)]
  exact_mod_cast Iff.rfl

theorem scaleDown_eq (given : 0 < den) (e : Int) : 0 < (scaleDown num den e).2 ∧
    ((scaleDown num den e).1 : ℚ) / (scaleDown num den e).2 = num / den * 2 ^ (-e) := by
  rw [scaleDown]
  split
  · next up =>
    obtain ⟨n, rfl⟩ := Int.eq_ofNat_of_zero_le up
    refine ⟨Nat.mul_pos given (Nat.pow_pos (by decide)), ?_⟩
    simp only [Int.toNat_natCast, Nat.pow_eq, Nat.cast_mul, Nat.cast_pow, Nat.cast_ofNat, zpow_neg,
      zpow_natCast]
    rw [div_mul_eq_div_div, div_eq_mul_inv _ ((2 : ℚ) ^ n)]
  · next down =>
    obtain ⟨n, same⟩ := Int.eq_ofNat_of_zero_le (show 0 ≤ -e by omega)
    refine ⟨given, ?_⟩
    simp only [same, Int.toNat_natCast, Nat.pow_eq, Nat.cast_mul, Nat.cast_pow, Nat.cast_ofNat, zpow_natCast]
    rw [div_mul_eq_mul_div]

/-- A quotient rounds to the natural number next to it, and from the middle to the even one. -/
theorem roundQuotient_eq (given : 0 < den) {m : Nat} (below : (m - 1 / 2 : ℚ) ≤ (num : ℚ) / den)
    (above : (num : ℚ) / den ≤ (m + 1 / 2 : ℚ))
    (apart : m % 2 = 1 → (m - 1 / 2 : ℚ) < (num : ℚ) / den ∧ (num : ℚ) / den < (m + 1 / 2 : ℚ)) :
    roundQuotient num den = m := by
  have positive : (0 : ℚ) < den := by exact_mod_cast given
  -- the bounds without fractions
  have low : 2 * m * den ≤ 2 * num + den := by
    rw [le_div_iff₀ positive] at below
    have scaled : (2 * m * den : ℚ) ≤ 2 * num + den := by linarith
    exact_mod_cast scaled
  have high : 2 * num ≤ (2 * m + 1) * den := by
    rw [div_le_iff₀ positive] at above
    have scaled : (2 * num : ℚ) ≤ (2 * m + 1) * den := by linarith
    exact_mod_cast scaled
  have strict : m % 2 = 1 → 2 * m * den < 2 * num + den ∧ 2 * num < (2 * m + 1) * den := by
    intro odd
    obtain ⟨less, more⟩ := apart odd
    rw [lt_div_iff₀ positive] at less
    rw [div_lt_iff₀ positive] at more
    have scaled : (2 * m * den : ℚ) < 2 * num + den ∧ (2 * num : ℚ) < (2 * m + 1) * den :=
      ⟨by linarith, by linarith⟩
    exact_mod_cast scaled
  have whole := Nat.div_add_mod num den
  have rest := Nat.mod_lt num given
  rw [roundQuotient]
  generalize num / den = q at whole ⊢
  generalize num % den = r at whole rest ⊢
  have least : m ≤ q + 1 := by
    by_contra more
    have : (q + 2) * den ≤ m * den := Nat.mul_le_mul_right den (by omega)
    nlinarith
  have most : q ≤ m := by
    by_contra more
    have : (m + 1) * den ≤ q * den := Nat.mul_le_mul_right den (by omega)
    nlinarith
  simp only [Bool.or_eq_true, decide_eq_true_eq, Bool.and_eq_true, beq_iff_eq]
  obtain rfl | rfl : m = q ∨ m = q + 1 := by omega
  · have inner : 2 * r ≤ den := by nlinarith
    have tie : m % 2 = 1 → 2 * r < den := fun odd => by nlinarith [strict odd]
    rw [if_neg]
    omega
  · have inner : den ≤ 2 * r := by nlinarith
    have tie : (q + 1) % 2 = 1 → den < 2 * r := fun odd => by nlinarith [strict odd]
    rw [if_pos]
    omega

theorem roundQuotient_bounds (given : 0 < den) {low high : Nat} (below : (low : ℚ) ≤ (num : ℚ) / den)
    (above : (num : ℚ) / den < high) : low ≤ roundQuotient num den ∧ roundQuotient num den ≤ high := by
  have least := (le_quotient given low).2 below
  have most : ¬ high ≤ num / den := fun h => absurd ((le_quotient given high).1 h) (not_le.2 above)
  rw [roundQuotient]
  split <;> omega

theorem log2_bounds (given : 0 < den) (some : 0 < num) :
    (2 : ℚ) ^ ((num.log2 : Int) - den.log2 - 1) < num / den ∧
      (num / den : ℚ) < 2 ^ ((num.log2 : Int) - den.log2 + 1) := by
  have positive : (0 : ℚ) < den := by exact_mod_cast given
  have two : (2 : ℚ) ≠ 0 := by norm_num
  have numLow : (2 : ℚ) ^ (num.log2 : Int) ≤ num := by exact_mod_cast Nat.log2_self_le some.ne'
  have numHigh : (num : ℚ) < 2 ^ ((num.log2 : Int) + 1) := by exact_mod_cast Nat.lt_log2_self
  have denLow : (2 : ℚ) ^ (den.log2 : Int) ≤ den := by exact_mod_cast Nat.log2_self_le given.ne'
  have denHigh : (den : ℚ) < 2 ^ ((den.log2 : Int) + 1) := by exact_mod_cast Nat.lt_log2_self
  constructor
  · rw [lt_div_iff₀ positive]
    calc (2 : ℚ) ^ ((num.log2 : Int) - den.log2 - 1) * den
        < 2 ^ ((num.log2 : Int) - den.log2 - 1) * 2 ^ ((den.log2 : Int) + 1) := by gcongr
      _ = 2 ^ (num.log2 : Int) := by rw [← zpow_add₀ two]; congr 1; ring
      _ ≤ num := numLow
  · rw [div_lt_iff₀ positive]
    calc (num : ℚ) < 2 ^ ((num.log2 : Int) + 1) := numHigh
      _ = 2 ^ ((num.log2 : Int) - den.log2 + 1) * 2 ^ (den.log2 : Int) := by
        rw [← zpow_add₀ two]; congr 1; ring
      _ ≤ 2 ^ ((num.log2 : Int) - den.log2 + 1) * den := by gcongr

/-- A number with these parts, or an infinity if they lie above all numbers. -/
def bounded (negative : Bool) (m : Nat) (e : Int) : Binary64 :=
  if 971 < e then infinite negative else finite negative m e

/-- A quotient is rounded on the scale of the numbers next to it; a significand that no longer fits is halved. -/
theorem ofQuotient_scaled (given : 0 < den) (some : 0 < num) (negative : Bool) :
    ∃ (e : Int) (n d : Nat), Scales (num / den) e ∧ 0 < d ∧ (n : ℚ) / d = num / den * 2 ^ (-e) ∧
      ofQuotient negative num den =
        if roundQuotient n d = 2 ^ 53 then bounded negative (2 ^ 52) (e + 1)
        else bounded negative (roundQuotient n d) e := by
  obtain ⟨above, below⟩ := log2_bounds given some
  generalize guess : ((num.log2 : Int) - den.log2 - 53) = start at *
  have order {a b : Int} (le : a ≤ b) : (2 : ℚ) ^ a ≤ 2 ^ b := zpow_le_zpow_right₀ (by norm_num) le
  obtain ⟨low, least, from', found⟩ : ∃ low, -1074 ≤ low ∧ (low = start ∨ low = -1074 ∧ start ≤ low) ∧
      max start (-1074) = low := ⟨max start (-1074), by omega, by omega, rfl⟩
  obtain ⟨shown, scaled⟩ := @scaleDown_eq num den given low
  -- one step up if the significand would not fit
  obtain ⟨e, chosen, scales⟩ : ∃ e, (if Nat.pow 2 53 ≤ (scaleDown num den low).1 / (scaleDown num den low).2
      then low + 1 else low) = e ∧ Scales (num / den) e := by
    refine ⟨_, rfl, ?_⟩
    have high := @le_quotient (scaleDown num den low).1 _ shown (2 ^ 53)
    rw [scaled, Nat.cast_pow, Nat.cast_ofNat, ← zpow_natCast, le_scaled] at high
    split
    · next more =>
      have bound := high.1 more
      refine ⟨by omega, below.trans_le (order (by omega)), .inl (le_trans (order (by omega)) bound)⟩
    · next less =>
      have bound := not_le.1 fun reached => less (high.2 reached)
      refine ⟨least, bound, ?_⟩
      obtain same | last := from'
      · exact .inl (le_trans (order (by omega)) above.le)
      · exact .inr last.1
  obtain ⟨positive, quotient⟩ := @scaleDown_eq num den given e
  refine ⟨e, _, _, scales, positive, quotient, ?_⟩
  simp only [ofQuotient, guess, found, chosen, beq_iff_eq, Nat.pow_eq]
  split <;> rfl

end Quotient

section Around

variable {x : ℚ} {m : Nat} {e : Int} (rounds : Rounds x m e)

include rounds

theorem Rounds.lt (fits : m < 2 ^ 53) : x < 2 ^ (53 + e) := by
  have small : (m : ℚ) + 1 ≤ 2 ^ 53 := by exact_mod_cast fits
  rw [← scaled_lt]
  calc x * 2 ^ (-e) ≤ (m : ℚ) + 1 / 2 := rounds.above
    _ < 2 ^ (53 : Int) := by norm_num at small ⊢; linarith

theorem Rounds.le (positive : 0 < m) : 2 ^ (-1 + e) ≤ x := by
  have gap : (gapBelow m e : ℚ) ≤ 2 := by exact_mod_cast gapBelow_le m e
  have one : (1 : ℚ) ≤ m := by exact_mod_cast positive
  rw [← le_scaled, zpow_neg_one]
  linarith [rounds.below]

/-- A rational that rounds to a number is on the number's scale, or just below a power of two. -/
theorem Rounds.scales {negative : Bool} (canonical : (finite negative m e).IsCanonical) : Scales x e ∨
    Scales x (e - 1) ∧ m = 2 ^ 52 ∧ (2 ^ 52 - 1 / 4 : ℚ) ≤ x * 2 ^ (-e) ∧ x * 2 ^ (-e) < 2 ^ 52 := by
  obtain ⟨fits, least, -, normal⟩ := canonical
  by_cases inside : (2 : ℚ) ^ (52 : Int) ≤ x * 2 ^ (-e) ∨ e = -1074
  · exact .inl ⟨least, rounds.lt fits, inside.imp_left (le_scaled 52 e).1⟩
  · obtain ⟨outside, later⟩ := not_or.1 inside
    have below := rounds.below
    have full : 2 ^ 52 ≤ m := normal.resolve_right later
    have under : x * 2 ^ (-e) < 2 ^ 52 := by exact_mod_cast not_le.1 outside
    obtain rfl : m = 2 ^ 52 := by
      by_contra other
      have more : (2 ^ 52 + 1 : ℚ) ≤ m := by exact_mod_cast (show 2 ^ 52 + 1 ≤ m by omega)
      rw [gapBelow_of_ne other, Nat.cast_ofNat] at below
      linarith
    rw [gapBelow_power (by omega)] at below
    have near : (2 ^ 52 - 1 / 4 : ℚ) ≤ x * 2 ^ (-e) := by
      norm_num at below ⊢
      exact below
    have half : (2 : ℚ) ^ (51 : Int) ≤ x * 2 ^ (-e) := by
      norm_num at near ⊢
      linarith
    refine .inr ⟨⟨by omega, ?_, .inl ?_⟩, rfl, near, under⟩
    · rw [show (53 + (e - 1) : Int) = 52 + e by ring]
      exact (scaled_lt 52 e).1 (not_le.1 outside)
    · rw [show (52 + (e - 1) : Int) = 51 + e by ring]
      exact (le_scaled 51 e).1 half

end Around

/-- A quotient that rounds to a number is made that number. -/
theorem ofQuotient_eq {num den : Nat} (given : 0 < den) (some : 0 < num) {m : Nat} {e : Int}
    (negative : Bool) (canonical : (finite negative m e).IsCanonical)
    (rounds : Rounds (num / den) m e) : ofQuotient negative num den = finite negative m e := by
  obtain ⟨e', n, d, scales, shown, quotient, result⟩ := ofQuotient_scaled given some negative
  rw [result]
  obtain here | ⟨below, rfl, near, under⟩ := rounds.scales canonical
  · obtain rfl := scales.unique here
    obtain ⟨fits, -, most, -⟩ := canonical
    have gap : (gapBelow m e' : ℚ) ≤ 2 := by exact_mod_cast gapBelow_le m e'
    obtain ⟨low, high, apart⟩ := rounds
    rw [← quotient] at low high apart
    have nearest : roundQuotient n d = m :=
      roundQuotient_eq shown (by linarith) high fun odd => ⟨by linarith [(apart odd).1], (apart odd).2⟩
    rw [nearest, if_neg (by omega), bounded, if_neg (by omega)]
  · obtain rfl := scales.unique below
    have double : (num : ℚ) / den * 2 ^ (-(e - 1)) = 2 * (num / den * 2 ^ (-e)) := by
      rw [neg_sub, sub_eq_add_neg, zpow_add₀ (by norm_num)]
      ring
    have nearest : roundQuotient n d = 2 ^ 53 := by
      rw [double] at quotient
      generalize (num : ℚ) / den * 2 ^ (-e) = scaled at near under quotient
      refine roundQuotient_eq shown ?_ ?_ fun odd => absurd odd (by decide)
      · rw [quotient]
        push_cast
        linarith
      · rw [quotient]
        push_cast
        linarith
    have most : e ≤ 971 := canonical.2.2.1
    rw [nearest, if_pos rfl, sub_add_cancel, bounded, if_neg (by omega)]

/-- The number of digits of a number, by the powers of ten around it. -/
theorem length_toDigits {n : Nat} (given : 0 < n) :
    10 ^ (Nat.toDigits 10 n).length ≤ 10 * n ∧ n < 10 ^ (Nat.toDigits 10 n).length := by
  induction n using Nat.strong_induction_on with
  | _ n ih =>
    by_cases small : n < 10
    · rw [Nat.toDigits_of_lt_base small, List.length_singleton]
      omega
    · obtain ⟨low, high⟩ := ih (n / 10) (by omega) (by omega)
      rw [Nat.toDigits_of_base_le (by decide) (by omega), List.length_append, List.length_singleton, pow_succ]
      omega

/-- No number is so small or so large that a decimal next to it is cut off for its size. -/
theorem Rounds.size {digits : Nat} {exponent : Int} {negative : Bool} {m : Nat} {e : Int}
    (canonical : (finite negative m e).IsCanonical) (positive : 0 < m)
    (rounds : Rounds (digits * 10 ^ exponent) m e) : 0 < digits ∧
      -330 ≤ ((Nat.toDigits 10 digits).length : Int) + exponent ∧
      ((Nat.toDigits 10 digits).length : Int) + exponent ≤ 310 := by
  obtain ⟨fits, least, most, -⟩ := canonical
  have low := rounds.le positive
  have high := rounds.lt fits
  have ten : (10 : ℚ) ≠ 0 := by norm_num
  have some : 0 < digits := by
    rw [Nat.pos_iff_ne_zero]
    rintro rfl
    rw [Nat.cast_zero, zero_mul] at low
    exact absurd low (not_le.2 (by positivity))
  obtain ⟨below, above⟩ := length_toDigits some
  generalize (Nat.toDigits 10 digits).length = size at below above ⊢
  have order {b : ℚ} (large : 1 ≤ b) {i j : Int} (le : i ≤ j) : b ^ i ≤ b ^ j := zpow_le_zpow_right₀ large le
  refine ⟨some, ?_, ?_⟩
  · by_contra less
    have tiny : (digits * 10 ^ exponent : ℚ) < 10 ^ (-331 : Int) :=
      calc (digits * 10 ^ exponent : ℚ) < 10 ^ (size : Int) * 10 ^ exponent := by
            gcongr
            exact_mod_cast above
        _ = 10 ^ (size + exponent) := (zpow_add₀ ten _ _).symm
        _ ≤ 10 ^ (-331 : Int) := order (by norm_num) (by omega)
    have powers : (10 : ℚ) ^ (-331 : Int) ≤ 2 ^ (-1075 : Int) := by
      rw [zpow_neg, zpow_neg, inv_le_inv₀ (by positivity) (by positivity)]
      exact_mod_cast (by decide +kernel : 2 ^ 1075 ≤ 10 ^ 331)
    have least : (2 : ℚ) ^ (-1075 : Int) ≤ 2 ^ (-1 + e) := order (by norm_num) (by omega)
    exact absurd ((powers.trans least).trans low) (not_le.2 tiny)
  · by_contra more
    have huge : (10 : ℚ) ^ (311 : Int) ≤ 10 * (digits * 10 ^ exponent) :=
      calc (10 : ℚ) ^ (311 : Int) ≤ 10 ^ (size + exponent) := order (by norm_num) (by omega)
        _ = 10 ^ (size : Int) * 10 ^ exponent := zpow_add₀ ten _ _
        _ ≤ 10 * digits * 10 ^ exponent := by
            gcongr
            exact_mod_cast below
        _ = 10 * (digits * 10 ^ exponent) := mul_assoc _ _ _
    have powers : (10 : ℚ) * 2 ^ (1024 : Int) ≤ 10 ^ (311 : Int) := by
      exact_mod_cast (by decide +kernel : 10 * 2 ^ 1024 ≤ 10 ^ 311)
    have most : (2 : ℚ) ^ (53 + e) ≤ 2 ^ (1024 : Int) := order (by norm_num) (by omega)
    have less := mul_lt_mul_of_pos_left (high.trans_le most) (by norm_num : (0 : ℚ) < 10)
    exact absurd (powers.trans huge) (not_le.2 less)

/-- A decimal that rounds to a number is read as that number. -/
theorem ofDecimal_eq {digits : Nat} {exponent : Int} {m : Nat} {e : Int} (negative : Bool)
    (canonical : (finite negative m e).IsCanonical) (positive : 0 < m)
    (rounds : Rounds (digits * 10 ^ exponent) m e) :
    ofDecimal negative digits exponent = finite negative m e := by
  obtain ⟨some, least, most⟩ := rounds.size canonical positive
  simp only [ofDecimal, beq_iff_eq, Bool.or_eq_true, decide_eq_true_eq]
  rw [if_neg (by omega), if_neg (by omega)]
  split
  · next up =>
    obtain ⟨k, rfl⟩ := Int.eq_ofNat_of_zero_le up
    refine ofQuotient_eq Nat.one_pos (Nat.mul_pos some (Nat.pow_pos (by decide))) negative canonical ?_
    simpa using rounds
  · next down =>
    obtain ⟨k, same⟩ := Int.eq_ofNat_of_zero_le (show 0 ≤ -exponent by omega)
    obtain rfl : exponent = -(k : Int) := by omega
    refine ofQuotient_eq (Nat.pow_pos (by decide)) some negative canonical ?_
    simpa [div_eq_mul_inv] using rounds

theorem bounded_isCanonical {negative : Bool} {m : Nat} {e : Int} (fits : m < 2 ^ 53) (least : -1074 ≤ e)
    (normal : 2 ^ 52 ≤ m ∨ e = -1074) : (bounded negative m e).IsCanonical := by
  rw [bounded]
  split
  · trivial
  · exact ⟨fits, least, by omega, normal⟩

theorem ofQuotient_isCanonical {num den : Nat} (given : 0 < den) (some : 0 < num) (negative : Bool) :
    (ofQuotient negative num den).IsCanonical := by
  obtain ⟨e, n, d, scales, shown, quotient, result⟩ := ofQuotient_scaled given some negative
  have high : (n : ℚ) / d < (2 ^ 53 : Nat) := by
    rw [quotient]
    exact_mod_cast (scaled_lt 53 e).2 scales.fits
  have least : ((0 : Nat) : ℚ) ≤ (n : ℚ) / d := by positivity
  have most : roundQuotient n d ≤ 2 ^ 53 := (roundQuotient_bounds shown least high).2
  have normal : 2 ^ 52 ≤ roundQuotient n d ∨ e = -1074 := by
    refine scales.normal.imp_left fun above => (roundQuotient_bounds shown ?_ high).1
    rw [quotient]
    exact_mod_cast (le_scaled 52 e).2 above
  have least := scales.least
  rw [result]
  split
  · exact bounded_isCanonical (by decide) (by omega) (.inl le_rfl)
  · exact bounded_isCanonical (by omega) least normal

/-- Whatever decimal is read, the number is in its one form. -/
theorem ofDecimal_isCanonical (negative : Bool) (digits : Nat) (exponent : Int) :
    (ofDecimal negative digits exponent).IsCanonical := by
  simp only [ofDecimal]
  split
  · exact ⟨by decide, le_rfl, by decide, .inr rfl⟩
  · next given =>
    have some : 0 < digits := by
      simp only [Bool.or_eq_true, beq_iff_eq, not_or] at given
      omega
    split
    · trivial
    · split
      · exact ofQuotient_isCanonical Nat.one_pos (Nat.mul_pos some (Nat.pow_pos (by decide))) negative
      · exact ofQuotient_isCanonical (Nat.pow_pos (by decide)) some negative

end Pagesmith.Binary64
