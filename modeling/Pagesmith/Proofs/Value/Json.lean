import Pagesmith.Proofs.Text.Character
import Pagesmith.Value.Json
import Mathlib.Tactic.SplitIfs

/-!
The characters of JSON text. Numbers are written with letters, digits, signs and points only, and
no control below the space is left anywhere in the text of a value.
-/

namespace Pagesmith.Value

/-- A character of the text of a number. -/
def isNumberChar (c : Char) : Bool := c.isAlphanum || c == '.' || c == '+' || c == '-'

theorem isNumberChar_digit {c : Char} (h : c.isDigit = true) : isNumberChar c = true := by
  simp [isNumberChar, Char.isAlphanum, h]

theorem isNumberChar_toDigits (n : Nat) : ∀ c ∈ Nat.toDigits 10 n, isNumberChar c = true :=
  fun _ h => isNumberChar_digit (Nat.isDigit_of_mem_toDigits (by decide) (by decide) h)

theorem isNumberChar_exponentText (e : Int) :
    ∀ c ∈ Binary64.exponentText e, isNumberChar c = true := by
  have digits := isNumberChar_toDigits e.natAbs
  intro c mem
  simp only [Binary64.exponentText, List.mem_cons] at mem
  obtain rfl | rfl | mem := mem
  · rfl
  · split <;> rfl
  · split at mem
    · obtain rfl | mem := List.mem_cons.1 mem
      · rfl
      · exact digits c mem
    · exact digits c mem

theorem isNumberChar_placePoint {ds : List Char} (h : ∀ c ∈ ds, isNumberChar c = true)
    (point : Int) : ∀ c ∈ Binary64.placePoint ds point, isNumberChar c = true := by
  have exponent := isNumberChar_exponentText (point - 1)
  have dot : isNumberChar '.' = true := rfl
  have zero : isNumberChar '0' = true := rfl
  intro c mem
  rw [Binary64.placePoint.eq_def] at mem
  split at mem
  · split at mem
    · cases mem
    · obtain rfl | mem := List.mem_cons.1 mem
      · exact h c (by simp)
      · exact exponent c mem
    · simp only [List.cons_append, List.mem_cons, List.mem_append] at mem
      obtain rfl | rfl | mem | mem := mem
      · exact h c (by simp)
      · exact dot
      · exact h c (by simp [mem])
      · exact exponent c mem
  · split at mem
    · simp only [List.cons_append, List.mem_cons, List.mem_append, List.mem_replicate] at mem
      obtain rfl | rfl | ⟨-, rfl⟩ | mem := mem
      · exact zero
      · exact dot
      · exact zero
      · exact h c mem
    · split at mem
      · simp only [List.mem_cons, List.mem_append, List.mem_replicate, List.not_mem_nil] at mem
        obtain (mem | ⟨-, rfl⟩) | rfl | rfl | mem := mem
        · exact h c mem
        · exact zero
        · exact dot
        · exact zero
        · cases mem
      · simp only [List.mem_append, List.mem_cons] at mem
        obtain mem | rfl | mem := mem
        · exact h c (List.mem_of_mem_take mem)
        · exact dot
        · exact h c (List.mem_of_mem_drop mem)

theorem isNumberChar_text (x : Binary64) :
    ∀ c ∈ (x.text jsonNumbers).toList, isNumberChar c = true := by
  match x with
  | .nan => exact List.all_eq_true.1 (by decide)
  | .infinite true => exact List.all_eq_true.1 (by decide)
  | .infinite false => exact List.all_eq_true.1 (by decide)
  | .finite negative m e =>
    have digits : ∀ c ∈ (Binary64.shortest m e).trimmed.1, isNumberChar c = true := by
      intro c mem
      simp only [Decimal.trimmed, List.mem_reverse] at mem
      have mem := (List.dropWhile_sublist _).subset mem
      exact isNumberChar_toDigits _ c (List.mem_reverse.1 mem)
    have magnitude : ∀ c ∈ Binary64.magnitudeText m e, isNumberChar c = true := by
      rw [Binary64.magnitudeText]
      split
      · simp [isNumberChar, Char.isAlphanum]
      · exact isNumberChar_placePoint digits _
    intro c mem
    simp only [Binary64.text, String.toList_ofList] at mem
    split at mem
    · obtain rfl | mem := List.mem_cons.1 mem
      · rfl
      · exact magnitude c mem
    · exact magnitude c mem

theorem isNumberChar_int (n : Int) : ∀ c ∈ (toString n).toList, isNumberChar c = true := by
  intro c mem
  rw [Int.toString_eq_repr, Int.repr_eq_if] at mem
  split at mem
  · exact isNumberChar_toDigits _ c (by simpa using mem)
  · simp only [String.toList_append, Nat.toList_repr, List.mem_append] at mem
    obtain mem | mem := mem
    · obtain rfl : c = '-' := by simpa using mem
      rfl
    · exact isNumberChar_toDigits _ c mem

theorem isNumberChar_digitChar : ∀ d < 16, isNumberChar (Nat.digitChar d) = true := by decide

theorem isNumberChar_hexDigits (width n : Nat) :
    ∀ c ∈ Text.hexDigits width n, isNumberChar c = true := by
  induction width generalizing n with
  | zero => simp [Text.hexDigits]
  | succ width ih =>
    intro c mem
    rw [Text.hexDigits, List.mem_append, List.mem_singleton] at mem
    obtain mem | rfl := mem
    · exact ih (n / 16) c mem
    · exact isNumberChar_digitChar _ (Nat.mod_lt _ (by decide))

theorem isNumberChar_range {c : Char} (h : isNumberChar c = true) :
    c = '+' ∨ c = '-' ∨ c = '.' ∨ (48 ≤ c.toNat ∧ c.toNat ≤ 57) ∨ (65 ≤ c.toNat ∧ c.toNat ≤ 122) := by
  simp only [isNumberChar, Bool.or_eq_true, beq_iff_eq] at h
  obtain ((h | rfl) | rfl) | rfl := h
  · have := Text.isAlphanum_range h
    omega
  · simp
  · simp
  · simp

theorem shown_number {c : Char} (h : isNumberChar c = true) : 0x20 ≤ c.toNat := by
  obtain rfl | rfl | rfl | h | h := isNumberChar_range h
  · decide
  · decide
  · decide
  · omega
  · omega

theorem shown_all {cs : List Char} (h : cs.all (fun d => 0x20 ≤ d.toNat) = true) :
    ∀ d ∈ cs, 0x20 ≤ d.toNat := by
  simpa only [List.all_eq_true, decide_eq_true_eq] using h

theorem shown_jsonChar (c : Char) : ∀ d ∈ jsonChar c, 0x20 ≤ d.toNat := by
  intro d mem
  simp only [jsonChar] at mem
  split_ifs at mem with quote backslash feed ret tab back form control
  iterate 7 exact shown_all (by decide) d mem
  · simp only [List.mem_cons] at mem
    obtain rfl | rfl | mem := mem
    · decide
    · decide
    · exact shown_number (isNumberChar_hexDigits 4 _ d mem)
  · obtain rfl := List.mem_singleton.1 mem
    omega

theorem shown_jsonString (s : String) : ∀ d ∈ (jsonString s).toList, 0x20 ≤ d.toNat := by
  intro d mem
  simp only [jsonString, String.toList_ofList, List.cons_append, List.mem_cons, List.mem_append,
    List.mem_flatMap, List.not_mem_nil, or_false] at mem
  obtain rfl | ⟨c, -, mem⟩ | rfl := mem
  · decide
  · exact shown_jsonChar c d mem
  · decide

theorem shown_jsonLetter (x : Text.Letter) : ∀ d ∈ jsonLetter x, 0x20 ≤ d.toNat := by
  cases x with
  | char c => exact shown_jsonChar c
  | half n =>
    intro d mem
    simp only [jsonLetter, List.mem_cons] at mem
    obtain rfl | rfl | mem := mem
    · decide
    · decide
    · exact shown_number (isNumberChar_hexDigits 4 _ d mem)

theorem shown_jsonTorn (t : Text.Torn) : ∀ d ∈ (jsonTorn t).toList, 0x20 ≤ d.toNat := by
  intro d mem
  simp only [jsonTorn, String.toList_ofList, List.cons_append, List.mem_cons, List.mem_append,
    List.mem_flatMap, List.not_mem_nil, or_false] at mem
  obtain rfl | ⟨x, -, mem⟩ | rfl := mem
  · decide
  · exact shown_jsonLetter x d mem
  · decide

theorem mem_intercalate {sep : String} {texts : List String} {d : Char}
    (mem : d ∈ (String.intercalate sep texts).toList) :
    d ∈ sep.toList ∨ ∃ t ∈ texts, d ∈ t.toList := by
  induction texts with
  | nil => simp at mem
  | cons t r ih =>
    match r with
    | [] => exact .inr ⟨t, by simp, by simpa using mem⟩
    | t' :: r =>
      simp only [String.intercalate_cons_cons, String.toList_append, List.mem_append] at mem
      obtain (mem | mem) | mem := mem
      · exact .inr ⟨t, by simp, mem⟩
      · exact .inl mem
      · obtain sep | ⟨u, found, mem⟩ := ih mem
        · exact .inl sep
        · exact .inr ⟨u, by simp [found], mem⟩

theorem shown_between {left right : String} {texts : List String}
    (edges : ∀ d ∈ (left ++ ", " ++ right).toList, 0x20 ≤ d.toNat)
    (parts : ∀ t ∈ texts, ∀ d ∈ t.toList, 0x20 ≤ d.toNat) :
    ∀ d ∈ (left ++ String.intercalate ", " texts ++ right).toList, 0x20 ≤ d.toNat := by
  intro d mem
  simp only [String.toList_append, List.mem_append] at edges mem
  obtain (mem | mem) | mem := mem
  · exact edges d (by simp [mem])
  · obtain sep | ⟨t, found, mem⟩ := mem_intercalate mem
    · exact edges d (.inl (.inr sep))
    · exact parts t found d mem
  · exact edges d (by simp [mem])

mutual

theorem shown_json (v : Value) : ∀ d ∈ v.json.toList, 0x20 ≤ d.toNat := by
  match v with
  | null | bytes _ | function | node _ | back _ | foreign .. =>
    simp only [json]
    exact shown_all (by decide)
  | bool b =>
    cases b with
    | false => exact shown_all (by decide)
    | true => exact shown_all (by decide)
  | int n => exact fun d mem => shown_number (isNumberChar_int n d (by simpa only [json] using mem))
  | float x => exact fun d mem => shown_number (isNumberChar_text x d (by simpa only [json] using mem))
  | str s => simpa only [json] using shown_jsonString s
  | torn t => simpa only [json] using shown_jsonTorn t
  | list xs | tuple xs =>
    simp only [json]
    exact shown_between (shown_all (by decide)) (shown_jsonItems xs)
  | dict es =>
    simp only [json]
    exact shown_between (shown_all (by decide)) (shown_jsonEntries es)

theorem shown_jsonItems (xs : List Value) :
    ∀ t ∈ jsonItems xs, ∀ d ∈ t.toList, 0x20 ≤ d.toNat := by
  match xs with
  | [] => simp [jsonItems]
  | x :: r =>
    simp only [jsonItems, List.forall_mem_cons]
    exact ⟨shown_json x, shown_jsonItems r⟩

theorem shown_jsonEntries (es : List (String × Value)) :
    ∀ t ∈ jsonEntries es, ∀ d ∈ t.toList, 0x20 ≤ d.toNat := by
  match es with
  | [] => simp [jsonEntries]
  | (k, v) :: r =>
    simp only [jsonEntries, List.forall_mem_cons]
    refine ⟨?_, shown_jsonEntries r⟩
    intro d mem
    simp only [String.toList_append, List.mem_append] at mem
    obtain (mem | mem) | mem := mem
    · exact shown_jsonString k d mem
    · exact shown_all (by decide) d mem
    · exact shown_json v d mem

end

/-- The first whole number that has no text. -/
def longNumber : Int := Nat.pow 10 digitLimit

theorem isLongNumber_longNumber : isLongNumber longNumber = true := by
  have size : longNumber.natAbs = Nat.pow 10 digitLimit := Int.natAbs_natCast _
  exact isLongNumber_iff.mpr (Nat.le_of_eq size.symm)

end Pagesmith.Value
