import Pagesmith.Value.Json
import Pagesmith.Value.Reader
import Mathlib.Data.List.TakeWhile
import Mathlib.Tactic.IntervalCases

/-!
Tokens of JSON text. A character of a string is read back from each of its spellings, and a number
is read alike whether the text ends behind it or goes on with a separator.
-/

namespace Pagesmith.Value.Reader

/-- A character that may stand directly behind a value. -/
def isDelimiter (c : Char) : Bool := isSpace c || c == ',' || c == ']' || c == '\x7d'

/-- The text goes on in a way that ends the value before it. -/
def Delimits (rest : List Char) : Prop := ∀ c ∈ rest.head?, isDelimiter c = true

theorem isDelimiter_cases {c : Char} (h : isDelimiter c = true) :
    c = ' ' ∨ c = '\t' ∨ c = '\n' ∨ c = '\r' ∨ c = ',' ∨ c = ']' ∨ c = '\x7d' := by
  simpa [isDelimiter, isSpace, or_assoc] using h

theorem Delimits.digit {c : Char} {r : List Char} (h : Delimits (c :: r)) : c.isDigit = false := by
  obtain rfl | rfl | rfl | rfl | rfl | rfl | rfl := isDelimiter_cases (h c rfl) <;> rfl

theorem hexValue?_digitChar : ∀ d < 16, Text.hexValue? (Nat.digitChar d) = some d := by decide

theorem hexDigits_four (n : Nat) :
    Text.hexDigits 4 n = [Nat.digitChar (n / 16 / 16 / 16 % 16), Nat.digitChar (n / 16 / 16 % 16),
      Nat.digitChar (n / 16 % 16), Nat.digitChar (n % 16)] := by
  simp [Text.hexDigits]

theorem hexNumber_digitChar (n : Nat) (h : n < 0x10000) :
    hexNumber (Nat.digitChar (n / 16 / 16 / 16 % 16)) (Nat.digitChar (n / 16 / 16 % 16))
      (Nat.digitChar (n / 16 % 16)) (Nat.digitChar (n % 16)) = some n := by
  have digit (k : Nat) : Text.hexValue? (Nat.digitChar (k % 16)) = some (k % 16) :=
    hexValue?_digitChar _ (Nat.mod_lt _ (by decide))
  simp only [hexNumber, digit, Option.bind_eq_bind, Option.bind_some, Option.pure_def]
  congr 1
  omega

theorem readString_numeric (n : Nat) (h : n < 0x10000) (rest : List Char) (hr : rest ≠ []) :
    readString ('\\' :: 'u' :: (Text.hexDigits 4 n ++ rest)) = behind (.ofCode n) (readString rest) := by
  have number := hexNumber_digitChar n h
  have empty : rest.isEmpty = false := by simpa using hr
  rw [hexDigits_four]
  simp only [List.cons_append, List.nil_append]
  rw [readString]
  simp [number, empty]

theorem readString_short (e c : Char) (h : shortEscape? e = some c) (rest : List Char) :
    readString ('\\' :: e :: rest) = behind (.char c) (readString rest) := by
  have notU : e ≠ 'u' := by rintro rfl; simp [shortEscape?] at h
  rw [readString]
  · simp [h]
  · intro a b c d r he
    exact absurd he notU
  · simpa using fun he => absurd he notU

theorem readString_plain (c : Char) (quote : c ≠ '"') (backslash : c ≠ '\\') (control : 0x20 ≤ c.toNat)
    (rest : List Char) : readString (c :: rest) = behind (.char c) (readString rest) := by
  rw [readString]
  · simp [Nat.not_lt.2 control]
  all_goals simp [quote, backslash]

/-- The spellings of a letter inside a string. -/
inductive Spells : List Char → Text.Letter → Prop where
  | plain (c : Char) (quote : c ≠ '"') (backslash : c ≠ '\\') (control : 0x20 ≤ c.toNat) : Spells [c] (.char c)
  | short (e c : Char) (letter : shortEscape? e = some c) : Spells ['\\', e] (.char c)
  | numeric (n : Nat) (small : n < 0x10000) : Spells ('\\' :: 'u' :: Text.hexDigits 4 n) (.ofCode n)

/-- A character by its number. -/
theorem Spells.code (c : Char) (small : c.toNat < 0x10000) :
    Spells ('\\' :: 'u' :: Text.hexDigits 4 c.toNat) (.char c) := by
  simpa using Spells.numeric c.toNat small

/-- Half of a character by its number. -/
theorem Spells.half (n : Fin 0x800) : Spells ('\\' :: 'u' :: Text.hexDigits 4 (0xd800 + n.val)) (.half n) := by
  simpa using Spells.numeric (0xd800 + n.val) (by omega)

theorem readString_spells {e : List Char} {x : Text.Letter} (h : Spells e x) (rest : List Char)
    (more : rest ≠ []) : readString (e ++ rest) = behind x (readString rest) := by
  cases h with
  | plain c quote backslash control => exact readString_plain c quote backslash control rest
  | short e c letter => exact readString_short e c letter rest
  | numeric n small => exact readString_numeric n small rest more

/-- The spellings of letters, one by one. -/
inductive SpellsAll : List Char → List Text.Letter → Prop where
  | nil : SpellsAll [] []
  | cons {e body : List Char} {x : Text.Letter} {s : List Text.Letter} :
      Spells e x → SpellsAll body s → SpellsAll (e ++ body) (x :: s)

theorem SpellsAll.flatMap {f : Text.Letter → List Char} (h : ∀ x, Spells (f x) x) (s : List Text.Letter) :
    SpellsAll (s.flatMap f) s := by
  induction s with
  | nil => exact .nil
  | cons x s ih => exact .cons (h x) ih

theorem SpellsAll.ofString {f : Char → List Char} (h : ∀ c, Spells (f c) (.char c)) (s : String) :
    SpellsAll (s.toList.flatMap f) (Text.Loose.ofString s) := by
  rw [Text.Loose.ofString]
  induction s.toList with
  | nil => exact .nil
  | cons c s ih => exact .cons (h c) ih

theorem readString_spellsAll {body : List Char} {s : List Text.Letter} (h : SpellsAll body s) (rest : List Char) :
    readString (body ++ '"' :: rest) = .ok (s, rest) := by
  induction h with
  | nil => simp [readString]
  | cons spells _ ih =>
    rw [List.append_assoc, readString_spells spells _ (by simp), ih]
    rfl

theorem string_spellsAll {body : List Char} {s : List Text.Letter} (h : SpellsAll body s) (rest : List Char) :
    string (body ++ '"' :: rest) = .ok (s, rest) := by
  simp [string, readString_spellsAll h]

@[simp] theorem ofLetters_ofString (s : String) : ofLetters (Text.Loose.ofString s) = .str s := by
  simp [ofLetters, Text.Loose.joined_of_isJoined (Text.Loose.isJoined_ofString s)]

@[simp] theorem keyOfLetters_ofString (s : String) : keyOfLetters (Text.Loose.ofString s) = s := by
  simp [keyOfLetters, Text.Loose.joined_of_isJoined (Text.Loose.isJoined_ofString s)]

@[simp] theorem ofLetters_torn (t : Text.Torn) : ofLetters t.letters = .torn t := by
  simp [ofLetters, Text.Loose.joined_of_isJoined t.isJoined, t.isTorn]

theorem takeWhile_digit (cs : List Char) {rest : List Char} (h : Delimits rest) :
    (cs ++ rest).takeWhile Char.isDigit = cs.takeWhile Char.isDigit := by
  induction cs with
  | nil =>
    cases rest with
    | nil => rfl
    | cons c r => simp [h.digit]
  | cons d ds ih => simp only [List.cons_append, List.takeWhile_cons, ih]

theorem dropWhile_digit (cs : List Char) {rest : List Char} (h : Delimits rest) :
    (cs ++ rest).dropWhile Char.isDigit = cs.dropWhile Char.isDigit ++ rest := by
  induction cs with
  | nil =>
    cases rest with
    | nil => rfl
    | cons c r => simp [h.digit]
  | cons d ds ih =>
    simp only [List.cons_append, List.dropWhile_cons, ih]
    split <;> rfl

theorem fraction_append (cs : List Char) {rest : List Char} (h : Delimits rest) :
    fraction (cs ++ rest) = ((fraction cs).1, (fraction cs).2 ++ rest) := by
  match cs with
  | [] =>
    match rest with
    | [] => rfl
    | c :: r => obtain rfl | rfl | rfl | rfl | rfl | rfl | rfl := isDelimiter_cases (h c rfl) <;> rfl
  | [p] =>
    by_cases point : p = '.'
    · subst point
      match rest with
      | [] => rfl
      | c :: r => simp [fraction, h.digit]
    · rw [List.cons_append, fraction, fraction] <;> simp [point]
  | p :: c :: r =>
    by_cases point : p = '.'
    · subst point
      have digits := takeWhile_digit (c :: r) h
      have after := dropWhile_digit (c :: r) h
      simp only [List.cons_append] at digits after
      simp only [fraction, List.cons_append, digits, after]
      split <;> rfl
    · rw [List.cons_append, fraction, fraction] <;> simp [point]

theorem exponentSign_append (cs : List Char) {rest : List Char} (h : Delimits rest) :
    exponentSign (cs ++ rest) = ((exponentSign cs).1, (exponentSign cs).2 ++ rest) := by
  match cs with
  | [] =>
    match rest with
    | [] => rfl
    | c :: r => obtain rfl | rfl | rfl | rfl | rfl | rfl | rfl := isDelimiter_cases (h c rfl) <;> rfl
  | c :: r =>
    by_cases minus : c = '-'
    · subst minus; rfl
    · by_cases plus : c = '+'
      · subst plus; rfl
      · rw [List.cons_append, exponentSign, exponentSign] <;> simp [minus, plus]

theorem exponent_append (cs : List Char) {rest : List Char} (h : Delimits rest) :
    exponent (cs ++ rest) = ((exponent cs).1, (exponent cs).2 ++ rest) := by
  match cs with
  | [] =>
    match rest with
    | [] => rfl
    | c :: r => obtain rfl | rfl | rfl | rfl | rfl | rfl | rfl := isDelimiter_cases (h c rfl) <;> rfl
  | e :: r =>
    simp only [List.cons_append, exponent, exponentSign_append r h, takeWhile_digit _ h,
      dropWhile_digit _ h]
    split
    · split <;> rfl
    · rfl

theorem number_append (limit : Option Nat) (negative : Bool) (whole cs : List Char)
    {rest : List Char} (h : Delimits rest) {v : Value} {left : List Char}
    (read : number limit negative whole cs = .ok (v, left)) :
    number limit negative whole (cs ++ rest) = .ok (v, left ++ rest) := by
  simp only [number, fraction_append cs h, exponent_append _ h] at read ⊢
  split at read
  · split at read
    · contradiction
    · simp_all
  · simp_all

theorem unsigned_append (limit : Option Nat) (negative : Bool) (n m : Nat) (ds : List Char)
    {rest : List Char} (h : Delimits rest) {v : Value} {left : List Char}
    (read : unsigned limit negative n ds = .ok (v, left)) :
    unsigned limit negative m (ds ++ rest) = .ok (v, left ++ rest) := by
  match ds with
  | [] => simp [unsigned] at read
  | d :: r =>
    by_cases zero : d = '0'
    · subst zero
      exact number_append limit negative ['0'] r h read
    · have digits := takeWhile_digit (d :: r) h
      have after := dropWhile_digit (d :: r) h
      rw [unsigned] at read
      · rw [List.cons_append] at digits after ⊢
        rw [unsigned, digits, after]
        · split at read
          · rw [if_pos ‹_›]
            exact number_append limit negative _ _ h read
          · contradiction
        · simpa using zero
      · simpa using zero

theorem numeral_append (limit : Option Nat) (cs : List Char) {rest : List Char} (h : Delimits rest)
    {v : Value} {left : List Char} (read : numeral limit cs = .ok (v, left)) :
    numeral limit (cs ++ rest) = .ok (v, left ++ rest) := by
  match cs with
  | [] => simp [numeral, unsigned] at read
  | c :: r =>
    by_cases minus : c = '-'
    · subst minus
      exact unsigned_append limit true _ _ r h read
    · rw [numeral] at read
      · rw [List.cons_append, numeral, ← List.cons_append]
        · exact unsigned_append limit false _ _ (c :: r) h read
        · simpa using minus
      · simpa using minus


/-- A number starts with a digit, or with a minus sign and a digit. -/
def StartsNumber (cs : List Char) : Prop :=
  ∃ d r, d.isDigit = true ∧ (cs = d :: r ∨ cs = '-' :: d :: r)

theorem unsigned_start {limit : Option Nat} {negative : Bool} {n : Nat} {ds : List Char}
    {p : Value × List Char} (read : unsigned limit negative n ds = .ok p) :
    ∃ d r, d.isDigit = true ∧ ds = d :: r := by
  match ds with
  | [] => simp [unsigned] at read
  | d :: r =>
    refine ⟨d, r, ?_, rfl⟩
    by_cases zero : d = '0'
    · subst zero; rfl
    · rw [unsigned] at read
      · by_contra digit
        simp [digit] at read
      · simpa using zero

theorem numeral_start {limit : Option Nat} {cs : List Char} {p : Value × List Char}
    (read : numeral limit cs = .ok p) : StartsNumber cs := by
  match cs with
  | [] => simp [numeral, unsigned] at read
  | c :: r =>
    by_cases minus : c = '-'
    · subst minus
      obtain ⟨d, s, digit, rfl⟩ := unsigned_start read
      exact ⟨d, s, digit, .inr rfl⟩
    · rw [numeral] at read
      · obtain ⟨d, s, digit, h⟩ := unsigned_start read
        exact ⟨d, s, digit, .inl h⟩
      · simpa using minus

theorem scalar_number (limit : Option Nat) {cs : List Char} (h : StartsNumber cs) :
    scalar limit cs = numeral limit cs := by
  obtain ⟨d, r, digit, rfl | rfl⟩ := h
  all_goals
    rw [scalar]
    all_goals
      intro s same
      simp_all

theorem scalar_append {limit : Option Nat} {cs : List Char} {rest : List Char} (h : Delimits rest)
    {v : Value} {left : List Char} (read : scalar limit cs = .ok (v, left)) :
    scalar limit (cs ++ rest) = .ok (v, left ++ rest) := by
  rw [scalar.eq_def] at read
  split at read
  case h_7 =>
    obtain ⟨d, r, digit, rfl | rfl⟩ := numeral_start read
    · exact (scalar_number limit ⟨d, r ++ rest, digit, .inl rfl⟩).trans
        (numeral_append limit _ h read)
    · exact (scalar_number limit ⟨d, r ++ rest, digit, .inr rfl⟩).trans
        (numeral_append limit _ h read)
  all_goals
    cases read
    rfl


theorem ofDigits_toDigits (n : Nat) : ofDigits (Nat.toDigits 10 n) = n := by
  have fold := Nat.ofDigitChars_ten_toDigits (n := n)
  rw [Nat.ofDigitChars_eq_foldl] at fold
  rw [ofDigits]
  simpa only [Nat.mul_comm] using fold

theorem toDigits_start (n : Nat) (h : 0 < n) :
    ∃ d ds, Nat.toDigits 10 n = d :: ds ∧ d ≠ '0' := by
  induction n using Nat.strong_induction_on with
  | _ n ih =>
    by_cases small : n < 10
    · refine ⟨n.digitChar, [], Nat.toDigits_of_lt_base small, ?_⟩
      interval_cases n <;> decide
    · obtain ⟨d, ds, start, first⟩ := ih (n / 10) (by omega) (by omega)
      refine ⟨d, ds ++ [(n % 10).digitChar], ?_, first⟩
      rw [Nat.toDigits_of_base_le (by decide) (by omega), start, List.cons_append]

/-- A whole number has no more digits than a reader takes. -/
def Fits (limit : Option Nat) (n : Int) : Prop :=
  isLong limit (Nat.toDigits 10 n.natAbs) = false

theorem unsigned_toDigits (limit : Option Nat) (negative : Bool) (left n : Nat)
    (fits : isLong limit (Nat.toDigits 10 n) = false) :
    unsigned limit negative left (Nat.toDigits 10 n) =
      .ok (.int (if negative then -(n : Int) else n), []) := by
  have digits : ∀ c ∈ Nat.toDigits 10 n, c.isDigit = true :=
    fun c => Nat.isDigit_of_mem_toDigits (by decide) (by decide)
  have value := ofDigits_toDigits n
  rcases Nat.eq_zero_or_pos n with rfl | positive
  · rw [Nat.toDigits_zero] at fits ⊢
    simp [unsigned, number, fraction, exponent, fits, ofDigits]
  · obtain ⟨d, ds, start, first⟩ := toDigits_start n positive
    rw [start] at digits value fits ⊢
    have all : (d :: ds).takeWhile Char.isDigit = d :: ds := List.takeWhile_eq_self_iff.2 digits
    have none : (d :: ds).dropWhile Char.isDigit = [] := List.dropWhile_eq_nil_iff.2 digits
    rw [unsigned, all, none]
    · simp [digits, number, fraction, exponent, fits, value]
    · simpa using first

theorem toList_int (n : Int) :
    (toString n).toList =
      if n < 0 then '-' :: Nat.toDigits 10 n.natAbs else Nat.toDigits 10 n.natAbs := by
  cases n with
  | ofNat n => simp [Int.repr_eq_if]
  | negSucc n =>
    rw [Int.toString_eq_repr, if_pos (Int.negSucc_lt_zero n)]
    simp [Int.repr]

/-- Digits that are read behind either sign, with the sign in front of them or without one. -/
theorem scalar_signed {limit : Option Nat} {ds : List Char} {v : Bool → Value}
    (read : ∀ negative left, unsigned limit negative left ds = .ok (v negative, [])) (negative : Bool) :
    scalar limit (if negative then '-' :: ds else ds) = .ok (v negative, []) := by
  cases negative with
  | true =>
    have signed : numeral limit ('-' :: ds) = .ok (v true, []) := read true _
    rw [if_pos rfl, scalar_number limit (numeral_start signed), signed]
  | false =>
    obtain ⟨d, r, digit, start⟩ := unsigned_start (read false 0)
    have whole := read false ds.length
    rw [if_neg Bool.false_ne_true, scalar_number limit ⟨d, r, digit, .inl start⟩]
    rw [start] at whole ⊢
    rw [numeral, whole]
    rintro r' same
    obtain ⟨rfl, -⟩ := List.cons.inj same
    cases digit

theorem scalar_int (limit : Option Nat) (n : Int) (fits : Fits limit n) :
    scalar limit (toString n).toList = .ok (.int n, []) := by
  have read := scalar_signed (fun negative left => unsigned_toDigits limit negative left n.natAbs fits)
    (decide (n < 0))
  rw [toList_int]
  simp only [decide_eq_true_eq] at read
  rw [read]
  congr 3
  split <;> omega

end Pagesmith.Value.Reader
