import Pagesmith.Proofs.Number.Shortest
import Pagesmith.Proofs.Value.Token
import Pagesmith.Value.Json

/-!
Decimals as they are read. A text of digits, with a point among them, zeros around them or an exponent behind them,
is read as the number nearest to the rational it writes; so the text of a number, made from its shortest decimal,
is read back as the number.
-/

namespace Pagesmith.Value.Reader

/-- Nothing but decimal digits. -/
def IsDigits (ds : List Char) : Prop := ∀ c ∈ ds, c.isDigit = true

theorem IsDigits.append {ds ds' : List Char} (h : IsDigits ds) (h' : IsDigits ds') : IsDigits (ds ++ ds') :=
  List.forall_mem_append.2 ⟨h, h'⟩

theorem isDigits_zeros (n : Nat) : IsDigits (List.replicate n '0') := by
  intro c mem
  rw [List.eq_of_mem_replicate mem]
  rfl

theorem isDigits_toDigits (n : Nat) : IsDigits (Nat.toDigits 10 n) :=
  fun _ => Nat.isDigit_of_mem_toDigits (by decide) (by decide)

/-- No digit comes first. -/
def NoDigit (rest : List Char) : Prop := ∀ c ∈ rest.head?, c.isDigit = false

theorem takeWhile_digits {ds rest : List Char} (digits : IsDigits ds) (stop : NoDigit rest) :
    (ds ++ rest).takeWhile Char.isDigit = ds ∧ (ds ++ rest).dropWhile Char.isDigit = rest := by
  rw [List.takeWhile_append_of_pos digits, List.dropWhile_append_of_pos digits]
  cases rest with
  | nil => simp
  | cons c r => simp [stop c rfl]

section Digits

theorem foldl_digits (n : Nat) (ds : List Char) :
    ds.foldl (fun n d => n * 10 + (d.toNat - '0'.toNat)) n = n * 10 ^ ds.length + ofDigits ds := by
  induction ds generalizing n with
  | nil => simp [ofDigits]
  | cons d r ih =>
    rw [ofDigits, List.foldl_cons, List.foldl_cons, ih, ih (0 * 10 + _), List.length_cons]
    ring

theorem ofDigits_append (ds ds' : List Char) :
    ofDigits (ds ++ ds') = ofDigits ds * 10 ^ ds'.length + ofDigits ds' := by
  rw [ofDigits, List.foldl_append, foldl_digits, ← ofDigits]

theorem ofDigits_zeros (n : Nat) : ofDigits (List.replicate n '0') = 0 := by
  induction n with
  | zero => rfl
  | succ n ih =>
    rw [List.replicate_succ', ofDigits_append, ih]
    rfl

end Digits

theorem fraction_digits {ds rest : List Char} (given : ds ≠ []) (digits : IsDigits ds) (stop : NoDigit rest) :
    fraction ('.' :: ds ++ rest) = (ds, rest) := by
  obtain ⟨d, r, rfl⟩ := List.exists_cons_of_ne_nil given
  obtain ⟨taken, left⟩ := takeWhile_digits digits stop
  have first := digits d (by simp)
  rw [List.cons_append] at taken left
  simp only [List.cons_append, fraction, first, if_true, taken, left]

theorem fraction_none {rest : List Char} (other : ∀ c ∈ rest.head?, c ≠ '.') : fraction rest = ([], rest) := by
  cases rest with
  | nil => rfl
  | cons c r =>
    have point := other c rfl
    rw [fraction]
    rintro c' r' same
    exact absurd (List.cons.inj same).1 point

theorem exponent_text (e : Int) : exponent (Binary64.exponentText e) = (some e, []) := by
  obtain ⟨ds, padded, given, digits, value⟩ : ∃ ds, Binary64.exponentText e =
      'e' :: (if e < 0 then '-' else '+') :: ds ∧ ds ≠ [] ∧ IsDigits ds ∧ ofDigits ds = e.natAbs := by
    have digits := isDigits_toDigits e.natAbs
    refine ⟨_, rfl, ?_⟩
    split
    · exact ⟨by simp, List.forall_mem_cons.2 ⟨rfl, digits⟩, ofDigits_toDigits _⟩
    · exact ⟨Nat.toDigits_ne_nil, digits, ofDigits_toDigits _⟩
  have stop : NoDigit [] := by simp [NoDigit]
  obtain ⟨taken, left⟩ := takeWhile_digits digits stop
  rw [List.append_nil] at taken left
  have sign : exponentSign ((if e < 0 then '-' else '+') :: ds) = (decide (e < 0), ds) := by
    split
    · next negative => simp [exponentSign, negative]
    · next positive => simp [exponentSign, positive]
  rw [padded]
  simp only [exponent, beq_self_eq_true, Bool.true_or, if_true, sign, taken, left, value]
  split
  · next negative =>
    rw [decide_eq_true_eq] at negative
    congr 2
    omega
  · next positive =>
    rw [decide_eq_true_eq] at positive
    congr 2
    omega

/-- Whole digits that a number can start with: no zero in front of others. -/
def Leads (ds : List Char) : Prop := ∃ d r, ds = d :: r ∧ (d = '0' → r = [])

theorem unsigned_number {ds rest : List Char} (leads : Leads ds) (digits : IsDigits ds) (stop : NoDigit rest)
    (limit : Option Nat) (negative : Bool) (left : Nat) :
    unsigned limit negative left (ds ++ rest) = number limit negative ds rest := by
  obtain ⟨d, r, rfl, zero⟩ := leads
  by_cases first : d = '0'
  · obtain rfl := zero first
    subst first
    rfl
  · obtain ⟨taken, after⟩ := takeWhile_digits digits stop
    have digit := digits d (by simp)
    rw [List.cons_append] at taken after ⊢
    rw [unsigned]
    · rw [if_pos digit, taken, after]
    · simpa using first

/-- The text is read, behind either sign, as the number nearest to this rational. -/
def ReadsDecimal (cs : List Char) (q : ℚ) : Prop :=
  ∃ (digits : Nat) (exponent : Int), (digits * 10 ^ exponent : ℚ) = q ∧ ∀ limit negative left,
    unsigned limit negative left cs = .ok (.float (Binary64.ofDecimal negative digits exponent), [])

section Reads

variable {frac : List Char} (digits : IsDigits frac)

include digits

theorem readsDecimal_point {whole : List Char} (leads : Leads whole) (before : IsDigits whole) (given : frac ≠ []) :
    ReadsDecimal (whole ++ '.' :: frac) (ofDigits (whole ++ frac) * 10 ^ (-frac.length : Int)) := by
  refine ⟨_, _, rfl, fun limit negative left => ?_⟩
  have stop : NoDigit [] := by simp [NoDigit]
  have read := fraction_digits given digits stop
  rw [List.append_nil] at read
  rw [unsigned_number leads before (by simp [NoDigit])]
  simp [number, read, exponent, given]

theorem readsDecimal_exponent {d : Char} (digit : d.isDigit = true) (e : Int) :
    ReadsDecimal ([d] ++ ((if frac = [] then [] else '.' :: frac) ++ Binary64.exponentText e))
      (ofDigits (d :: frac) * 10 ^ (e - frac.length)) := by
  refine ⟨_, _, rfl, fun limit negative left => ?_⟩
  have read : fraction ((if frac = [] then [] else '.' :: frac) ++ Binary64.exponentText e) =
      (frac, Binary64.exponentText e) := by
    split
    · next none =>
      rw [none, List.nil_append]
      exact fraction_none (by simp [Binary64.exponentText])
    · next given => exact fraction_digits given digits (by simp [NoDigit, Binary64.exponentText])
  have stop : NoDigit ((if frac = [] then [] else '.' :: frac) ++ Binary64.exponentText e) := by
    split <;> simp [NoDigit, Binary64.exponentText]
  rw [unsigned_number ⟨d, [], rfl, fun _ => rfl⟩ (by simpa [IsDigits] using digit) stop]
  simp [number, read, exponent_text]

end Reads

section Place

theorem placePoint_cons (d : Char) (r : List Char) (point : Int) : Binary64.placePoint (d :: r) point =
    if point < -3 || 16 < point then
      [d] ++ ((if r = [] then [] else '.' :: r) ++ Binary64.exponentText (point - 1))
    else if point ≤ 0 then ['0'] ++ '.' :: (List.replicate (-point).toNat '0' ++ d :: r)
    else if (d :: r).length ≤ point.toNat then
      (d :: r ++ List.replicate (point.toNat - (d :: r).length) '0') ++ '.' :: ['0']
    else (d :: r).take point.toNat ++ '.' :: (d :: r).drop point.toNat := by
  cases r <;> rfl

variable {d : Char} {r : List Char} (digits : IsDigits (d :: r)) (first : d ≠ '0')

include digits first

/-- Wherever the point is placed, the digits are read as the same rational. -/
theorem readsDecimal_placePoint (point : Int) : ReadsDecimal (Binary64.placePoint (d :: r) point)
    (ofDigits (d :: r) * 10 ^ (point - (d :: r).length)) := by
  obtain ⟨digit, rest⟩ := List.forall_mem_cons.1 digits
  have leads {cs : List Char} : Leads (d :: cs) := ⟨d, cs, rfl, fun zero => absurd zero first⟩
  rw [placePoint_cons]
  split
  · have read := readsDecimal_exponent rest digit (point - 1)
    rwa [show point - 1 - r.length = point - (d :: r).length by rw [List.length_cons]; omega] at read
  · split
    · next small =>
      have zeros := isDigits_zeros (-point).toNat
      have zero : Leads ['0'] := ⟨_, _, rfl, fun _ => rfl⟩
      have read := readsDecimal_point (zeros.append digits) zero (isDigits_zeros 1) (by simp)
      have value : ofDigits (['0'] ++ (List.replicate (-point).toNat '0' ++ d :: r)) = ofDigits (d :: r) := by
        rw [← List.append_assoc, ofDigits_append, List.singleton_append, ← List.replicate_succ, ofDigits_zeros,
          Nat.zero_mul, Nat.zero_add]
      rw [value, List.length_append, List.length_replicate] at read
      rwa [show (-((-point).toNat + (d :: r).length : Nat) : Int) = point - (d :: r).length by omega] at read
    · split
      · next whole =>
        have zeros := isDigits_zeros (point.toNat - (d :: r).length)
        have leads' : Leads (d :: r ++ List.replicate (point.toNat - (d :: r).length) '0') := leads
        have read := readsDecimal_point (isDigits_zeros 1) leads' (digits.append zeros) (by simp)
        have value : (ofDigits (d :: r ++ List.replicate (point.toNat - (d :: r).length) '0' ++
            List.replicate 1 '0') : ℚ) = ofDigits (d :: r) * 10 ^ (point - (d :: r).length + 1) := by
          rw [List.append_assoc, List.replicate_append_replicate, ofDigits_append, ofDigits_zeros, Nat.add_zero,
            List.length_replicate, Nat.cast_mul, Nat.cast_pow, Nat.cast_ofNat, ← zpow_natCast]
          congr 2
          omega
        rw [value, mul_assoc, ← zpow_add₀ (by norm_num), List.length_replicate] at read
        rwa [show point - (d :: r).length + 1 + -((1 : Nat) : Int) = point - (d :: r).length by omega] at read
      · next inside =>
        have taken : IsDigits ((d :: r).take point.toNat) := fun c mem => digits c (List.mem_of_mem_take mem)
        have left : IsDigits ((d :: r).drop point.toNat) := fun c mem => digits c (List.mem_of_mem_drop mem)
        have leads' : Leads ((d :: r).take point.toNat) := by
          obtain ⟨n, same⟩ : ∃ n, point.toNat = n + 1 := ⟨point.toNat - 1, by omega⟩
          rw [same, List.take_succ_cons]
          exact leads
        have given : (d :: r).drop point.toNat ≠ [] := by
          rw [Ne, List.drop_eq_nil_iff]
          exact inside
        have read := readsDecimal_point left leads' taken given
        rw [List.take_append_drop, List.length_drop] at read
        rwa [show (-((d :: r).length - point.toNat : Nat) : Int) = point - (d :: r).length by omega] at read

end Place

/-- Without the zeros at their end, and with the exponent that goes with it, digits stand for the same rational. -/
theorem trimmed_eq {x : Decimal} (some : 0 < x.digits) : ∃ d r, x.trimmed.1 = d :: r ∧ d ≠ '0' ∧
    IsDigits (d :: r) ∧ (ofDigits (d :: r) * 10 ^ x.trimmed.2 : ℚ) = x.value := by
  have digits := isDigits_toDigits x.digits
  have value := ofDigits_toDigits x.digits
  obtain ⟨d, ds, start, first⟩ := toDigits_start x.digits some
  obtain ⟨kept, n, trimmed, cut⟩ : ∃ (kept : List Char) (n : Nat), x.trimmed = (kept, x.exponent + n) ∧
      Nat.toDigits 10 x.digits = kept ++ List.replicate n '0' := by
    have parts := congrArg List.reverse
      (List.takeWhile_append_dropWhile (p := (· == '0')) (l := (Nat.toDigits 10 x.digits).reverse))
    have zeros : (Nat.toDigits 10 x.digits).reverse.takeWhile (· == '0') =
        List.replicate ((Nat.toDigits 10 x.digits).reverse.takeWhile (· == '0')).length '0' :=
      List.eq_replicate_of_mem fun c mem => by simpa using List.mem_takeWhile_imp mem
    rw [List.reverse_append, List.reverse_reverse, zeros, List.reverse_replicate] at parts
    refine ⟨_, _, ?_, parts.symm⟩
    have length := congrArg List.length parts
    rw [List.length_append, List.length_replicate] at length
    simp only [Decimal.trimmed, Decimal.digitChars, Prod.mk.injEq, true_and]
    omega
  cases kept with
  | nil =>
    -- the first digit is no zero
    rw [start] at cut
    cases n with
    | zero => cases cut
    | succ n => exact absurd (List.cons.inj cut).1 first
  | cons d' r =>
    obtain rfl : d = d' := (List.cons.inj (start.symm.trans cut)).1
    rw [trimmed]
    refine ⟨d, r, rfl, first, fun c mem => digits c ?_, ?_⟩
    · rw [cut]
      exact List.mem_append_left _ mem
    · rw [Decimal.value, ← value, cut, ofDigits_append, ofDigits_zeros, List.length_replicate, Nat.add_zero,
        zpow_add₀ (by norm_num), zpow_natCast]
      push_cast
      ring

/-- The text of a number in its one form is read back as the number. -/
theorem scalar_finite (limit : Option Nat) {negative : Bool} {m : Nat} {e : Int}
    (canonical : (Binary64.finite negative m e).IsCanonical) :
    scalar limit ((Binary64.finite negative m e).text jsonNumbers).toList =
      .ok (.float (.finite negative m e), []) := by
  have text : ((Binary64.finite negative m e).text jsonNumbers).toList =
      if negative then '-' :: Binary64.magnitudeText m e else Binary64.magnitudeText m e :=
    String.toList_ofList
  rw [text]
  refine scalar_signed (v := fun negative => .float (.finite negative m e)) (fun negative left => ?_) negative
  rw [Binary64.magnitudeText]
  split
  · next zero =>
    obtain rfl : m = 0 := eq_of_beq zero
    obtain ⟨-, -, -, normal⟩ := canonical
    obtain rfl : e = -1074 := normal.resolve_left (by decide)
    rfl
  · next given =>
    have positive : 0 < m := Nat.pos_of_ne_zero fun zero => given (beq_iff_eq.2 zero)
    obtain ⟨some, rounds⟩ := Binary64.shortest_rounds positive canonical
    obtain ⟨d, r, start, first, digits, value⟩ := trimmed_eq some
    obtain ⟨n, k, same, read⟩ := readsDecimal_placePoint digits first
      ((Binary64.shortest m e).trimmed.2 + (d :: r).length)
    rw [add_sub_cancel_right, value] at same
    rw [← same] at rounds
    simp only [start]
    rw [read, Binary64.ofDecimal_eq negative canonical positive rounds]

section Tokens

variable {limit : Option Nat}

/-- A value that a word or a number writes: a whole number that a reader takes, or a decimal in its one form. -/
inductive IsToken (limit : Option Nat) : Value → Prop where
  | null : IsToken limit .null
  | bool (b : Bool) : IsToken limit (.bool b)
  | int {n : Int} : Fits limit n → IsToken limit (.int n)
  | float {x : Binary64} : x.IsCanonical → IsToken limit (.float x)

theorem ofDigits_lt {ds : List Char} (digits : IsDigits ds) : ofDigits ds < 10 ^ ds.length := by
  induction ds with
  | nil => decide
  | cons d r ih =>
    obtain ⟨digit, digits⟩ := List.forall_mem_cons.1 digits
    have high := (Char.isDigit_iff_toNat.1 digit).2
    have rest := ih digits
    have split : ofDigits (d :: r) = (0 * 10 + (d.toNat - '0'.toNat)) * 10 ^ r.length + ofDigits r :=
      foldl_digits _ r
    have zero : '0'.toNat = 48 := rfl
    have nine : '9'.toNat = 57 := rfl
    have first : (0 * 10 + (d.toNat - '0'.toNat)) * 10 ^ r.length ≤ 9 * 10 ^ r.length :=
      Nat.mul_le_mul_right _ (by omega)
    rw [split, List.length_cons, pow_succ]
    omega

/-- The digits of a number are no more than those it is read from. -/
theorem length_ofDigits {ds : List Char} (digits : IsDigits ds) (given : ds ≠ []) :
    (Nat.toDigits 10 (ofDigits ds)).length ≤ ds.length := by
  rcases Nat.eq_zero_or_pos (ofDigits ds) with zero | positive
  · rw [zero]
    exact List.length_pos_iff.2 given
  · have low := (Binary64.length_toDigits positive).1
    have high := ofDigits_lt digits
    have less : 10 ^ (Nat.toDigits 10 (ofDigits ds)).length < 10 ^ (ds.length + 1) := by
      rw [pow_succ]
      omega
    exact Nat.lt_succ_iff.1 ((Nat.pow_lt_pow_iff_right (by decide)).1 less)

theorem fits_ofDigits {ds : List Char} (digits : IsDigits ds) (given : ds ≠ [])
    (short : isLong limit ds = false) (negative : Bool) :
    Fits limit (if negative then -(ofDigits ds : Int) else ofDigits ds) := by
  have number : (if negative then -(ofDigits ds : Int) else ofDigits ds).natAbs = ofDigits ds := by
    cases negative <;> simp
  have fewer := length_ofDigits digits given
  rw [Fits, number]
  cases limit with
  | none => rfl
  | some most =>
    simp only [isLong, Option.any_some, decide_eq_false_iff_not, not_lt] at short ⊢
    omega

variable {p : Value × List Char}

theorem number_token {negative : Bool} {whole rest : List Char} (digits : IsDigits whole) (given : whole ≠ [])
    (read : number limit negative whole rest = .ok p) : IsToken limit p.1 := by
  simp only [number] at read
  split at read
  · split at read
    · cases read
    · next short =>
      cases read
      exact .int (fits_ofDigits digits given (Bool.not_eq_true _ ▸ short) negative)
  · cases read
    exact .float (Binary64.ofDecimal_isCanonical negative _ _)

theorem unsigned_token {negative : Bool} {left : Nat} {ds : List Char}
    (read : unsigned limit negative left ds = .ok p) : IsToken limit p.1 := by
  rw [unsigned.eq_def] at read
  split at read
  · exact number_token (by simp [IsDigits]) (by simp) read
  · split at read
    · next digit =>
      exact number_token (fun _ mem => List.mem_takeWhile_imp mem) (by simp [digit]) read
    · cases read
  · cases read

/-- What is read as a word or a number. -/
theorem scalar_token {cs : List Char} (read : scalar limit cs = .ok p) : IsToken limit p.1 := by
  rw [scalar.eq_def] at read
  split at read
  case h_7 =>
    rw [numeral.eq_def] at read
    split at read <;> exact unsigned_token read
  all_goals cases read
  · exact .null
  · exact .bool true
  · exact .bool false
  all_goals exact .float trivial

/-- The text of a decimal is read back as the decimal. -/
theorem scalar_float (limit : Option Nat) {x : Binary64} (canonical : x.IsCanonical) :
    scalar limit (x.text jsonNumbers).toList = .ok (.float x, []) := by
  cases x with
  | nan => rfl
  | infinite negative => cases negative <;> rfl
  | finite negative m e => exact scalar_finite limit canonical

end Tokens

end Pagesmith.Value.Reader
