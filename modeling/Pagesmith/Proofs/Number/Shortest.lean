import Pagesmith.Number.Shortest
import Pagesmith.Proofs.Number.Nearest

/-!
The shortest decimal of a number rounds to the number: every decimal that the search takes lies in the number's
interval, and on the grid of seventeen digits there is one.
-/

namespace Pagesmith

/-- The rational that a decimal stands for. -/
def Decimal.value (d : Decimal) : ℚ := d.digits * 10 ^ d.exponent

namespace Binary64

section Interval

variable {i : Interval} (given : 0 < i.den)

include given

/-- A decimal lies in an interval if it lies between its ends, and on an end only if the interval is closed. -/
theorem holds_iff (d : Decimal) : i.holds d = true ↔
    if i.closed = true then (i.low : ℚ) / i.den ≤ d.value ∧ d.value ≤ (i.high : ℚ) / i.den
    else (i.low : ℚ) / i.den < d.value ∧ d.value < (i.high : ℚ) / i.den := by
  -- the decimal as a fraction, over the denominator of the interval
  obtain ⟨num, scale, same, shown, value⟩ : ∃ num scale : Nat, i.holds d =
      (if i.closed then i.low * scale ≤ num && num ≤ i.high * scale
        else i.low * scale < num && num < i.high * scale) ∧ 0 < scale ∧ d.value = num / scale / i.den := by
    have positive : (i.den : ℚ) ≠ 0 := by exact_mod_cast given.ne'
    refine ⟨_, _, rfl, ?_, ?_⟩
    · split
      · exact Nat.one_pos
      · exact Nat.pow_pos (by decide)
    · rw [Decimal.value]
      split
      · next up =>
        obtain ⟨k, exponent⟩ := Int.eq_ofNat_of_zero_le up
        simp [exponent, positive]
      · next down =>
        obtain ⟨k, exponent⟩ : ∃ k : Nat, d.exponent = -k := ⟨(-d.exponent).toNat, by omega⟩
        simp [exponent]
        field_simp
  have positive : (0 : ℚ) < i.den := by exact_mod_cast given
  have large : (0 : ℚ) < scale := by exact_mod_cast shown
  rw [same, value]
  simp only [div_le_div_iff_of_pos_right positive, div_lt_div_iff_of_pos_right positive, le_div_iff₀ large,
    div_le_iff₀ large, lt_div_iff₀ large, div_lt_iff₀ large]
  norm_cast
  split <;> simp

/-- The neighbours of the middle on a grid, and which of them is taken. -/
theorem onGrid?_eq (k : Int) : ∃ q r d : Nat, (q * 10 ^ k : ℚ) ≤ i.mid / i.den ∧
    (i.mid / i.den : ℚ) < (q + 1) * 10 ^ k ∧ onGrid? i k =
      if i.holds ⟨q, k⟩ && 0 < q then
        some (if i.holds ⟨q + 1, k⟩ && nearerUp q r d then ⟨q + 1, k⟩ else ⟨q, k⟩)
      else if i.holds ⟨q + 1, k⟩ then some ⟨q + 1, k⟩ else none := by
  obtain ⟨num, den, shown, quotient, same⟩ : ∃ num den : Nat, 0 < den ∧
      (num / den : ℚ) = i.mid / i.den / 10 ^ k ∧
      ((if 0 ≤ k then i.mid else i.mid * Nat.pow 10 (-k).toNat) = num ∧
        (if 0 ≤ k then i.den * Nat.pow 10 k.toNat else i.den) = den) := by
    refine ⟨_, _, ?_, ?_, rfl, rfl⟩
    · split
      · exact Nat.mul_pos given (Nat.pow_pos (by decide))
      · exact given
    · split
      · next up =>
        obtain ⟨n, rfl⟩ := Int.eq_ofNat_of_zero_le up
        simp [div_div]
      · next down =>
        obtain ⟨n, rfl⟩ : ∃ n : Nat, k = -n := ⟨(-k).toNat, by omega⟩
        simp [mul_div_right_comm]
  have positive : (0 : ℚ) < den := by exact_mod_cast shown
  have step : (0 : ℚ) < 10 ^ k := by positivity
  have below : ((num / den : Nat) : ℚ) ≤ num / den := Nat.cast_div_le
  have above : (num / den : ℚ) < (num / den : Nat) + 1 := by
    rw [div_lt_iff₀ positive]
    exact_mod_cast Nat.lt_mul_of_div_lt (Nat.lt_succ_self (num / den)) shown
  rw [quotient] at below above
  refine ⟨num / den, num % den, den, (le_div_iff₀ step).1 below, (div_lt_iff₀ step).1 above, ?_⟩
  simp only [onGrid?, same.1, same.2]
  generalize (i.holds ⟨num / den, k⟩ && decide (0 < num / den)) = low
  generalize i.holds ⟨num / den + 1, k⟩ = high
  cases low <;> cases high <;> rfl

/-- On a grid finer than the interval is wide, one of the neighbours of the middle lies in the interval. -/
theorem onGrid?_isSome {k : Int} (low : (i.low : ℚ) / i.den < i.mid / i.den)
    (high : (i.mid : ℚ) / i.den < i.high / i.den) (reached : (10 : ℚ) ^ k ≤ i.mid / i.den)
    (fine : (10 : ℚ) ^ k < i.high / i.den - i.low / i.den) : (onGrid? i k).isSome := by
  obtain ⟨q, r, d, below, above, same⟩ := onGrid?_eq given k
  have inside {n : Nat} (after : (i.low : ℚ) / i.den < n * 10 ^ k)
      (before : (n * 10 ^ k : ℚ) < i.high / i.den) : i.holds ⟨n, k⟩ = true := by
    rw [holds_iff given, Decimal.value]
    split
    · exact ⟨after.le, before.le⟩
    · exact ⟨after, before⟩
  have some : 0 < q := by
    rw [Nat.pos_iff_ne_zero]
    rintro rfl
    rw [Nat.cast_zero, zero_add, one_mul] at above
    exact absurd reached (not_le.2 above)
  have hit : i.holds ⟨q, k⟩ = true ∨ i.holds ⟨q + 1, k⟩ = true := by
    obtain after | before := lt_or_ge ((i.low : ℚ) / i.den) (q * 10 ^ k)
    · exact .inl (inside after (below.trans_lt high))
    · refine .inr (inside ?_ ?_)
      · rw [Nat.cast_add, Nat.cast_one]
        exact low.trans above
      · rw [Nat.cast_add, Nat.cast_one]
        linarith
  rw [same]
  obtain hit | hit := hit
  · rw [hit, decide_eq_true some]
    rfl
  · rw [hit]
    split <;> rfl

theorem onGrid?_holds {k : Int} {d : Decimal} (found : onGrid? i k = some d) :
    0 < d.digits ∧ i.holds d = true := by
  obtain ⟨q, r, den, -, -, same⟩ := onGrid?_eq given k
  rw [same] at found
  split at found
  · next low =>
    rw [Bool.and_eq_true, decide_eq_true_eq] at low
    cases found
    split
    · next high =>
      rw [Bool.and_eq_true] at high
      exact ⟨q.succ_pos, high.1⟩
    · exact ⟨low.2, low.1⟩
  · split at found
    · next high =>
      cases found
      exact ⟨q.succ_pos, high⟩
    · cases found

end Interval

/-- The search takes the decimal of some grid, if the last one it comes to has one. -/
theorem shortestFrom_found {i : Interval} {point : Int} (more n : Nat)
    (last : (onGrid? i (point - (n + more : Nat))).isSome) :
    ∃ k, onGrid? i k = some (shortestFrom i point (more + 1) n) := by
  induction more generalizing n with
  | zero =>
    obtain ⟨d, found⟩ := Option.isSome_iff_exists.1 last
    refine ⟨_, found.trans ?_⟩
    rw [shortestFrom]
    rw [Nat.add_zero] at found
    rw [found]
    rfl
  | succ more ih =>
    rw [shortestFrom]
    cases found : onGrid? i (point - n) with
    | some d => exact ⟨_, found⟩
    | none =>
      rw [show n + (more + 1) = n + 1 + more by omega] at last
      exact ih (n + 1) last

section Search

variable {m : Nat} (positive : 0 < m) (e : Int)

include positive

/-- The ends and the middle of the interval around a number, in its own scale. -/
theorem interval_eq : 0 < (interval m e).den ∧
    ((interval m e).low / (interval m e).den : ℚ) = (m - gapBelow m e / 4) * 2 ^ e ∧
    ((interval m e).mid / (interval m e).den : ℚ) = m * 2 ^ e ∧
    ((interval m e).high / (interval m e).den : ℚ) = (m + 1 / 2) * 2 ^ e := by
  obtain ⟨up, den, same, shown, quotient⟩ : ∃ up den : Nat, interval m e =
      ⟨(4 * m - gapBelow m e) * up, 4 * m * up, (4 * m + 2) * up, den, m % 2 == 0⟩ ∧ 0 < den ∧
      (up / den : ℚ) = 2 ^ e / 4 := by
    refine ⟨_, _, rfl, ?_, ?_⟩
    · split
      · exact Nat.one_pos
      · exact Nat.pow_pos (by decide)
    · split
      · next large =>
        obtain ⟨n, rfl⟩ : ∃ n : Nat, e = n + 2 := ⟨(e - 2).toNat, by omega⟩
        rw [zpow_add₀ (by norm_num)]
        norm_num
      · next small =>
        obtain ⟨n, rfl⟩ : ∃ n : Nat, e = 2 - n := ⟨(2 - e).toNat, by omega⟩
        rw [zpow_sub₀ (by norm_num)]
        norm_num
        ring
  have gap : gapBelow m e ≤ 4 * m := (gapBelow_le m e).trans (by omega)
  rw [same]
  refine ⟨shown, ?_, ?_, ?_⟩
  · rw [Nat.cast_mul, Nat.cast_sub gap, mul_div_assoc, quotient]
    push_cast
    ring
  · rw [Nat.cast_mul, mul_div_assoc, quotient]
    push_cast
    ring
  · rw [Nat.cast_mul, mul_div_assoc, quotient]
    push_cast
    ring

variable {e}

/-- The power of ten below a number. -/
theorem decimalPoint_le (least : -1074 ≤ e) :
    (10 : ℚ) ^ (decimalPoint (interval m e) - 1) ≤ m * 2 ^ e := by
  obtain ⟨shown, -, middle, -⟩ := interval_eq positive e
  -- digits are counted of the number moved so far that none comes out below one
  obtain ⟨shift, point, far, places, power⟩ : ∃ shift : Nat, decimalPoint (interval m e) =
      ((Nat.toDigits 10 ((interval m e).mid * shift / (interval m e).den)).length : Int) - 400 ∧
      ∃ far : Nat, far = 400 ∧ (shift : ℚ) = 10 ^ far := by
    refine ⟨_, rfl, ?_⟩
    generalize same : 400 = far
    exact ⟨far, rfl, by simp⟩
  have ten : (10 : ℚ) ≠ 0 := by norm_num
  have moved : (((interval m e).mid * shift : Nat) : ℚ) / (interval m e).den = m * 2 ^ e * 10 ^ far := by
    rw [Nat.cast_mul, mul_div_right_comm, middle, power]
  have some : 0 < (interval m e).mid * shift / (interval m e).den := by
    rw [Nat.lt_iff_add_one_le, le_quotient shown, moved]
    have one : (1 : ℚ) ≤ m := by exact_mod_cast positive
    have powers : (1 : ℚ) ≤ 2 ^ (-1074 : Int) * 10 ^ far := by
      rw [zpow_neg, inv_mul_eq_div, le_div_iff₀ (by positivity), one_mul, places]
      exact_mod_cast (by decide +kernel : 2 ^ 1074 ≤ 10 ^ 400)
    have order : (2 : ℚ) ^ (-1074 : Int) ≤ 2 ^ e := zpow_le_zpow_right₀ (by norm_num) least
    calc ((0 + 1 : Nat) : ℚ) ≤ 2 ^ (-1074 : Int) * 10 ^ far := by simpa using powers
      _ ≤ 1 * 2 ^ e * 10 ^ far := by
        rw [one_mul]
        gcongr
      _ ≤ m * 2 ^ e * 10 ^ far := by gcongr
  have digits := (length_toDigits some).1
  have below := (le_quotient shown _).1 (le_refl ((interval m e).mid * shift / (interval m e).den))
  rw [moved] at below
  rw [point]
  generalize (interval m e).mid * shift / (interval m e).den = n at digits below ⊢
  generalize (Nat.toDigits 10 n).length = size at digits ⊢
  have scaled : ((10 : ℚ) ^ size) ≤ 10 * n := by exact_mod_cast digits
  have step : (10 : ℚ) ^ ((size : Int) - 400 - 1) * (10 * 10 ^ far) = 10 ^ size := by
    rw [← zpow_natCast _ far, ← zpow_one_add₀ ten, ← zpow_add₀ ten, ← zpow_natCast]
    congr 1
    omega
  have powers : (0 : ℚ) < 10 * 10 ^ far := by positivity
  rw [← mul_le_mul_iff_of_pos_right powers, step]
  calc (10 : ℚ) ^ size ≤ 10 * n := scaled
    _ ≤ 10 * (m * 2 ^ e * 10 ^ far) := by gcongr
    _ = m * 2 ^ e * (10 * 10 ^ far) := by ring

/-- The grid of seventeen digits is finer than the interval around a number is wide. -/
theorem grid_fine (fits : m < 2 ^ 53) (least : -1074 ≤ e) :
    (10 : ℚ) ^ (decimalPoint (interval m e) - 17) < (1 / 2 + gapBelow m e / 4) * 2 ^ e := by
  have below := decimalPoint_le positive least
  have ten : (10 : ℚ) ≠ 0 := by norm_num
  have grid : (10 : ℚ) ^ (decimalPoint (interval m e) - 17) * 10 ^ 16 =
      10 ^ (decimalPoint (interval m e) - 1) := by
    rw [← zpow_natCast, ← zpow_add₀ ten]
    congr 1
    omega
  rw [← grid] at below
  have scale : (0 : ℚ) < 2 ^ e := by positivity
  have small : (m : ℚ) < 10 ^ 16 * (1 / 2 + gapBelow m e / 4) := by
    by_cases power : m = 2 ^ 52
    · rw [power, Nat.cast_pow, Nat.cast_ofNat]
      have gap : (0 : ℚ) ≤ gapBelow (2 ^ 52) e := Nat.cast_nonneg _
      generalize (gapBelow (2 ^ 52) e : ℚ) = width at gap
      linarith
    · have most : (m : ℚ) < 2 ^ 53 := by exact_mod_cast fits
      rw [gapBelow_of_ne power, Nat.cast_ofNat]
      linarith
  have powers : (0 : ℚ) < 10 ^ 16 := by positivity
  rw [← mul_lt_mul_iff_of_pos_right powers]
  calc (10 : ℚ) ^ (decimalPoint (interval m e) - 17) * 10 ^ 16 ≤ m * 2 ^ e := below
    _ < 10 ^ 16 * (1 / 2 + gapBelow m e / 4) * 2 ^ e := by gcongr
    _ = (1 / 2 + gapBelow m e / 4) * 2 ^ e * 10 ^ 16 := by ring

/-- The shortest decimal of a number rounds to it. -/
theorem shortest_rounds {negative : Bool} (canonical : (finite negative m e).IsCanonical) :
    0 < (shortest m e).digits ∧ Rounds (shortest m e).value m e := by
  obtain ⟨fits, least, -, -⟩ := canonical
  obtain ⟨shown, low, middle, high⟩ := interval_eq positive e
  have scale : (0 : ℚ) < 2 ^ e := by positivity
  have fine := grid_fine positive fits least
  have below := decimalPoint_le positive least
  have last : (onGrid? (interval m e) (decimalPoint (interval m e) - (1 + 16 : Nat))).isSome := by
    have gap : (0 : ℚ) < gapBelow m e := by
      rw [gapBelow]
      split <;> norm_num
    have grid : decimalPoint (interval m e) - (1 + 16 : Nat) = decimalPoint (interval m e) - 17 := rfl
    rw [grid]
    refine onGrid?_isSome shown ?_ ?_ ?_ ?_
    · rw [low, middle]
      gcongr
      linarith
    · rw [middle, high]
      gcongr
      linarith
    · rw [middle]
      exact (zpow_le_zpow_right₀ (by norm_num) (by omega)).trans below
    · rw [low, high, ← sub_mul]
      convert fine using 2
      ring
  obtain ⟨k, found⟩ := shortestFrom_found 16 1 last
  obtain ⟨some, inside⟩ := onGrid?_holds shown found
  rw [holds_iff shown, low, high] at inside
  have closed : (interval m e).closed = (m % 2 == 0) := rfl
  have back (x : ℚ) : x * 2 ^ (-e) = x / 2 ^ e := by rw [zpow_neg, div_eq_mul_inv]
  refine ⟨some, ?_⟩
  change Rounds (shortestFrom (interval m e) (decimalPoint (interval m e)) 17 1).value m e
  generalize (shortestFrom (interval m e) (decimalPoint (interval m e)) 17 1).value = x at inside ⊢
  split at inside
  · next even =>
    rw [closed, beq_iff_eq] at even
    refine ⟨?_, ?_, fun odd => by omega⟩
    · rw [back]
      exact (le_div_iff₀ scale).2 inside.1
    · rw [back]
      exact (div_le_iff₀ scale).2 inside.2
  · have strict := And.intro ((lt_div_iff₀ scale).2 inside.1) ((div_lt_iff₀ scale).2 inside.2)
    rw [← back] at strict
    exact ⟨strict.1.le, strict.2.le, fun _ => strict⟩

end Search

end Binary64

end Pagesmith
