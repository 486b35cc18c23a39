import Mathlib.Data.List.Basic

/-! Classes of ASCII characters as ranges of numbers, and the digits of a number. -/

namespace Pagesmith.Text

/-- What holds of every character of a text, checked one after the other. -/
theorem forall_chars {P : Char → Prop} [DecidablePred P] {cs : List Char}
    (h : (cs.all fun c => decide (P c)) = true) : ∀ c ∈ cs, P c :=
  fun c mem => of_decide_eq_true (List.all_eq_true.1 h c mem)

theorem isAlpha_range {c : Char} (h : c.isAlpha = true) :
    (65 ≤ c.toNat ∧ c.toNat ≤ 90) ∨ (97 ≤ c.toNat ∧ c.toNat ≤ 122) := by
  change (decide ('A'.val ≤ c.val ∧ c.val ≤ 'Z'.val) ||
    (decide ('a'.val ≤ c.val) && decide (c.val ≤ 'z'.val))) = true at h
  simpa [UInt32.le_iff_toNat_le, ← Char.toNat_val] using h

theorem isDigit_range {c : Char} (h : c.isDigit = true) : 48 ≤ c.toNat ∧ c.toNat ≤ 57 :=
  Char.isDigit_iff_toNat.1 h

theorem isAlphanum_range {c : Char} (h : c.isAlphanum = true) :
    (48 ≤ c.toNat ∧ c.toNat ≤ 57) ∨ (65 ≤ c.toNat ∧ c.toNat ≤ 90) ∨
      (97 ≤ c.toNat ∧ c.toNat ≤ 122) := by
  simp only [Char.isAlphanum, Bool.or_eq_true] at h
  obtain h | h := h
  · have := isAlpha_range h
    omega
  · have := isDigit_range h
    omega

theorem isUpper_iff {c : Char} : c.isUpper = true ↔ 65 ≤ c.toNat ∧ c.toNat ≤ 90 := by
  change decide ('A'.val ≤ c.val ∧ c.val ≤ 'Z'.val) = true ↔ _
  simp [UInt32.le_iff_toNat_le, ← Char.toNat_val]

theorem isAlpha_iff {c : Char} : c.isAlpha = true ↔ c.isUpper = true ∨ c.isLower = true := by
  change (c.isUpper || c.isLower) = true ↔ _
  rw [Bool.or_eq_true]

theorem isAlphanum_upper {c : Char} (h : 65 ≤ c.toNat ∧ c.toNat ≤ 90) : c.isAlphanum = true := by
  simp [Char.isAlphanum, isAlpha_iff.2 (.inl (isUpper_iff.2 h))]

/-- A small letter becomes the capital letter 32 places before it. -/
theorem toUpper_small {c : Char} (h : 97 ≤ c.toNat ∧ c.toNat ≤ 122) :
    c.toUpper.toNat = c.toNat - 32 := by
  have small : 'a'.val ≤ c.val ∧ c.val ≤ 'z'.val := h.imp UInt32.le_iff_toNat_le.2 UInt32.le_iff_toNat_le.2
  refine (congrArg Char.toNat (dif_pos small)).trans ?_
  change (c.val + ('A'.val - 'a'.val)).toNat = c.val.toNat - 32
  rw [UInt32.toNat_add]
  change (c.val.toNat + 4294967264) % 4294967296 = _
  have range : 97 ≤ c.val.toNat ∧ c.val.toNat ≤ 122 := h
  omega

theorem toUpper_other {c : Char} (h : ¬ (97 ≤ c.toNat ∧ c.toNat ≤ 122)) : c.toUpper = c :=
  dif_neg fun small : 'a'.val ≤ c.val ∧ c.val ≤ 'z'.val =>
    h (small.imp UInt32.le_iff_toNat_le.1 UInt32.le_iff_toNat_le.1)

theorem isDigit_toString (k : Nat) : ∀ c ∈ (toString k).toList, c.isDigit = true := by
  intro c mem
  rw [Nat.toString_eq_repr, Nat.toList_repr] at mem
  exact Nat.isDigit_of_mem_toDigits (by decide) (by decide) mem

/-- Different numbers have different digits. -/
theorem toString_inj {i j : Nat} (same : (toString i).toList = (toString j).toList) : i = j := by
  rw [Nat.toString_eq_repr, Nat.toString_eq_repr, Nat.toList_repr, Nat.toList_repr] at same
  rw [← Nat.ofDigitChars_ten_toDigits (n := i), same, Nat.ofDigitChars_ten_toDigits]

end Pagesmith.Text
