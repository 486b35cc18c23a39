import Pagesmith.Proofs.Value.Decimal
import Pagesmith.Proofs.Value.Grammar
import Pagesmith.Proofs.Value.Json
import Pagesmith.Value.Nesting

/-!
Documents of JSON. Whatever the reader accepts is in the grammar, so a document has a value exactly if it is a text
of the grammar with white space around it whose lists and objects do not lie too deep.
-/

namespace Pagesmith.Value.Reader

section Strings

variable {s : List Text.Letter}

theorem behind_ok {x : Text.Letter} {rest : List Char} {read : Except (Option Stop) (List Text.Letter × List Char)}
    (h : behind x read = .ok (s, rest)) : ∃ s', read = .ok (s', rest) ∧ s = x :: s' := by
  cases read with
  | ok p =>
    cases h
    exact ⟨p.1, rfl, rfl⟩
  | error stop => cases h

theorem readString_number {a b c d : Char} {n : Nat} (number : hexNumber a b c d = some n)
    {rest : List Char} (more : rest ≠ []) : readString ('\\' :: 'u' :: a :: b :: c :: d :: rest) =
      behind (.ofCode n) (readString rest) := by
  have given : rest.isEmpty = false := by simpa using more
  rw [readString, given, number]
  rfl

/-- A string that is read has a closing quote, and what follows the quote does not matter. -/
theorem readString_sound {cs rest : List Char} (read : readString cs = .ok (s, rest)) :
    ∃ body, cs = body ++ '"' :: rest ∧ ∀ rest', readString (body ++ '"' :: rest') = .ok (s, rest') := by
  fun_induction readString cs generalizing s with
  | case1 | case3 | case4 | case6 | case7 | case9 => cases read
  | case2 r =>
    cases read
    exact ⟨[], rfl, fun rest' => by rw [List.nil_append, readString]⟩
  | case5 a b c d r n number ih =>
    obtain ⟨s', inner, rfl⟩ := behind_ok read
    obtain ⟨body, rfl, again⟩ := ih inner
    have found : hexNumber a b c d = some n := by simpa using number
    refine ⟨'\\' :: 'u' :: a :: b :: c :: d :: body, rfl, fun rest' => ?_⟩
    simp only [List.cons_append]
    rw [readString_number found (by simp), again]
    rfl
  | case8 e r _ _ c letter ih =>
    obtain ⟨s', inner, rfl⟩ := behind_ok read
    obtain ⟨body, rfl, again⟩ := ih inner
    refine ⟨'\\' :: e :: body, rfl, fun rest' => ?_⟩
    simp only [List.cons_append]
    rw [readString_short e c letter, again]
    rfl
  | case10 c r quote single _ _ double shown ih =>
    obtain ⟨s', inner, rfl⟩ := behind_ok read
    obtain ⟨body, rfl, again⟩ := ih inner
    have backslash : c ≠ '\\' := fun same => by
      cases body with
      | nil => exact double _ _ same rfl
      | cons d body => exact double _ _ same rfl
    refine ⟨c :: body, rfl, fun rest' => ?_⟩
    rw [List.cons_append, readString_plain c quote backslash (Nat.not_lt.1 shown), again]
    rfl

theorem string_sound {cs rest : List Char} (read : string cs = .ok (s, rest)) :
    ∃ body, cs = body ++ '"' :: rest ∧ Quotes body s := by
  rw [string] at read
  split at read
  · next t left found =>
    cases read
    obtain ⟨body, rfl, again⟩ := readString_sound found
    exact ⟨body, rfl, fun rest' => by rw [string, again]⟩
  · cases read
  · cases read

end Strings

section Numbers

variable {limit : Option Nat}

/-- A text that neither goes on with digits nor with a fraction. -/
def EndsFraction (rest : List Char) : Prop := ∀ c ∈ rest.head?, c.isDigit = false ∧ c ≠ '.'

theorem isNumberChar_digits {ds : List Char} (digits : IsDigits ds) : ∀ c ∈ ds, isNumberChar c = true :=
  fun c mem => isNumberChar_digit (digits c mem)

/-- The digits in front of other text, and what follows them. -/
theorem digits_cut (cs : List Char) : cs = cs.takeWhile Char.isDigit ++ cs.dropWhile Char.isDigit ∧
    IsDigits (cs.takeWhile Char.isDigit) :=
  ⟨List.takeWhile_append_dropWhile.symm, fun _ mem => List.mem_takeWhile_imp mem⟩

theorem fraction_cases (cs : List Char) : fraction cs = ([], cs) ∨ ∃ ds rest, cs = '.' :: ds ++ rest ∧ ds ≠ [] ∧
    IsDigits ds ∧ fraction cs = (ds, rest) := by
  rw [fraction.eq_def]
  split
  · next c r =>
    split
    · next digit =>
      obtain ⟨cut, digits⟩ := digits_cut (c :: r)
      exact .inr ⟨_, _, congrArg (List.cons '.') cut, by simp [digit], digits, rfl⟩
    · exact .inl rfl
  · exact .inl rfl

/-- The text of a fraction is read as it by itself, and in front of whatever does not go on with it. -/
theorem fraction_sound (cs : List Char) : ∃ t, cs = t ++ (fraction cs).2 ∧ (∀ c ∈ t, isNumberChar c = true) ∧
    ∀ rest, EndsFraction rest → NoDigit (t ++ rest) ∧ fraction (t ++ rest) = ((fraction cs).1, rest) := by
  obtain same | ⟨ds, left, rfl, given, digits, same⟩ := fraction_cases cs
  · rw [same]
    exact ⟨[], rfl, by simp, fun rest ends =>
      ⟨fun c first => (ends c first).1, fraction_none fun c first => (ends c first).2⟩⟩
  · rw [same]
    exact ⟨'.' :: ds, rfl, List.forall_mem_cons.2 ⟨rfl, isNumberChar_digits digits⟩, fun rest ends =>
      ⟨by simp [NoDigit], fraction_digits given digits fun c first => (ends c first).1⟩⟩

theorem exponentSign_sound (cs : List Char) : ∃ sign, cs = sign ++ (exponentSign cs).2 ∧
    (∀ c ∈ sign, isNumberChar c = true) ∧ ∀ ds, ds ≠ [] → IsDigits ds →
      exponentSign (sign ++ ds) = ((exponentSign cs).1, ds) := by
  rw [exponentSign.eq_def]
  split
  · exact ⟨['-'], rfl, by simp [isNumberChar], fun _ _ _ => rfl⟩
  · exact ⟨['+'], rfl, by simp [isNumberChar], fun _ _ _ => rfl⟩
  · refine ⟨[], rfl, by simp, fun ds given digits => ?_⟩
    obtain ⟨d, r, rfl⟩ := List.exists_cons_of_ne_nil given
    have digit := digits d List.mem_cons_self
    rw [List.nil_append, exponentSign]
    · rintro _ ⟨⟩
      cases digit
    · rintro _ ⟨⟩
      cases digit

/-- The text of an exponent is read as it by itself. -/
theorem exponent_sound (cs : List Char) : ∃ t, cs = t ++ (exponent cs).2 ∧ (∀ c ∈ t, isNumberChar c = true) ∧
    EndsFraction t ∧ exponent t = ((exponent cs).1, []) := by
  have none (same : exponent cs = (none, cs)) : ∃ t, cs = t ++ (exponent cs).2 ∧
      (∀ c ∈ t, isNumberChar c = true) ∧ EndsFraction t ∧ exponent t = ((exponent cs).1, []) := by
    rw [same]
    exact ⟨[], rfl, by simp, by simp [EndsFraction], rfl⟩
  cases cs with
  | nil => exact none rfl
  | cons mark r =>
    by_cases letter : (mark == 'e' || mark == 'E') = true
    · obtain ⟨sign, split, signs, again⟩ := exponentSign_sound r
      obtain ⟨cut, digits⟩ := digits_cut (exponentSign r).2
      cases found : (exponentSign r).2.takeWhile Char.isDigit with
      | nil => exact none (by simp [exponent, letter, found])
      | cons d ds =>
        rw [found] at cut digits
        have stop : NoDigit [] := by simp [NoDigit]
        obtain ⟨taken, left⟩ := takeWhile_digits digits stop
        rw [List.append_nil] at taken left
        have read := again (d :: ds) (by simp) digits
        refine ⟨mark :: (sign ++ d :: ds), ?_, ?_, ?_, ?_⟩
        · simp only [exponent, letter, found, if_true]
          rw [List.cons_append, List.append_assoc, ← cut, ← split]
        · have word : isNumberChar mark = true := by
            simp only [Bool.or_eq_true, beq_iff_eq] at letter
            obtain rfl | rfl := letter <;> rfl
          exact List.forall_mem_cons.2 ⟨word, List.forall_mem_append.2 ⟨signs, isNumberChar_digits digits⟩⟩
        · simp only [Bool.or_eq_true, beq_iff_eq] at letter
          rintro c ⟨⟩
          obtain rfl | rfl := letter <;> decide
        · simp only [exponent, letter, if_true, read, taken, left, found]
    · exact none (by simp [exponent, letter])

variable {v : Value} {cs rest : List Char}

/-- What is read of the text is some of its characters, which are read so by themselves. -/
def Reread (read : List Char → Except Stop (Value × List Char)) (v : Value) (cs rest : List Char) : Prop :=
  ∃ t, cs = t ++ rest ∧ (∀ c ∈ t, isNumberChar c = true) ∧ read t = .ok (v, [])

theorem number_sound {negative : Bool} {whole : List Char}
    (read : number limit negative whole cs = .ok (v, rest)) : ∃ t, cs = t ++ rest ∧
      (∀ c ∈ t, isNumberChar c = true) ∧ NoDigit t ∧ number limit negative whole t = .ok (v, []) := by
  obtain ⟨f, cut, chars, again⟩ := fraction_sound cs
  obtain ⟨e, cut', chars', ends, again'⟩ := exponent_sound (fraction cs).2
  obtain ⟨stop, found⟩ := again e ends
  have left : rest = (exponent (fraction cs).2).2 := by
    simp only [number] at read
    split at read
    · split at read
      · cases read
      · cases read
        rfl
    · cases read
      rfl
  refine ⟨f ++ e, ?_, List.forall_mem_append.2 ⟨chars, chars'⟩, stop, ?_⟩
  · rw [List.append_assoc, left, ← cut', ← cut]
  · simp only [number, found, again'] at read ⊢
    split at read
    · next none =>
      split at read
      · cases read
      · next short =>
        cases read
        rw [if_pos none, if_neg short]
    · next some =>
      cases read
      rw [if_neg some]

theorem unsigned_sound {negative : Bool} {left : Nat}
    (read : unsigned limit negative left cs = .ok (v, rest)) : ∃ t, cs = t ++ rest ∧
      (∀ c ∈ t, isNumberChar c = true) ∧ ∀ left, unsigned limit negative left t = .ok (v, []) := by
  rw [unsigned.eq_def] at read
  split at read
  · obtain ⟨t, rfl, chars, -, again⟩ := number_sound read
    exact ⟨'0' :: t, rfl, List.forall_mem_cons.2 ⟨rfl, chars⟩, fun _ => again⟩
  · next d r other =>
    split at read
    · next digit =>
      obtain ⟨t, cut', chars, stop, again⟩ := number_sound read
      obtain ⟨cut, digits⟩ := digits_cut (d :: r)
      rw [cut'] at cut
      have leads : Leads ((d :: r).takeWhile Char.isDigit) :=
        ⟨d, r.takeWhile Char.isDigit, by simp [digit], fun zero => absurd zero other⟩
      refine ⟨(d :: r).takeWhile Char.isDigit ++ t, by rw [List.append_assoc]; exact cut, ?_, ?_⟩
      · exact List.forall_mem_append.2 ⟨isNumberChar_digits digits, chars⟩
      · exact fun left => by rw [unsigned_number leads digits stop, again]
    · cases read
  · cases read

theorem numeral_sound (read : numeral limit cs = .ok (v, rest)) : Reread (numeral limit) v cs rest := by
  rw [numeral.eq_def] at read
  split at read
  · next r =>
    obtain ⟨t, rfl, chars, again⟩ := unsigned_sound read
    exact ⟨'-' :: t, rfl, List.forall_mem_cons.2 ⟨rfl, chars⟩, again _⟩
  · obtain ⟨t, rfl, chars, again⟩ := unsigned_sound read
    obtain ⟨d, r, digit, rfl⟩ := unsigned_start (again 0)
    refine ⟨d :: r, rfl, chars, ?_⟩
    rw [numeral, again]
    rintro _ ⟨⟩
    cases digit

theorem scalar_sound (read : scalar limit cs = .ok (v, rest)) : Reread (scalar limit) v cs rest := by
  rw [scalar.eq_def] at read
  split at read
  case h_7 =>
    obtain ⟨t, rfl, chars, again⟩ := numeral_sound read
    exact ⟨t, rfl, chars, by rw [scalar_number limit (numeral_start again), again]⟩
  all_goals cases read
  · exact ⟨['n', 'u', 'l', 'l'], rfl, Text.forall_chars (by decide), rfl⟩
  · exact ⟨['t', 'r', 'u', 'e'], rfl, Text.forall_chars (by decide), rfl⟩
  · exact ⟨['f', 'a', 'l', 's', 'e'], rfl, Text.forall_chars (by decide), rfl⟩
  · exact ⟨['N', 'a', 'N'], rfl, Text.forall_chars (by decide), rfl⟩
  · exact ⟨['I', 'n', 'f', 'i', 'n', 'i', 't', 'y'], rfl, Text.forall_chars (by decide), rfl⟩
  · exact ⟨['-', 'I', 'n', 'f', 'i', 'n', 'i', 't', 'y'], rfl, Text.forall_chars (by decide), rfl⟩

end Numbers

section Values

variable {limit : Option Nat} {v : Value} {cs rest : List Char}

theorem bind_ok {ε α β : Type} {first : Except ε α} {next : α → Except ε β} {b : β}
    (h : (first >>= next) = .ok b) : ∃ a, first = .ok a ∧ next a = .ok b := by
  cases first with
  | ok a => exact ⟨a, rfl, h⟩
  | error _ => cases h

/-- The white space in front of a text. -/
theorem skip_cut (cs : List Char) : ∃ w, IsSpace w ∧ cs = w ++ skip cs :=
  ⟨cs.takeWhile isSpace, fun _ mem => List.mem_takeWhile_imp mem, List.takeWhile_append_dropWhile.symm⟩

mutual

/-- Whatever the reader accepts is a text of the grammar. -/
theorem readValue_sound {fuel : Nat} {v : Value} {cs rest : List Char}
    (read : readValue limit fuel cs = .ok (v, rest)) : ∃ n t, cs = t ++ rest ∧ ReadsAs limit n v t := by
  match fuel with
  | 0 => cases read
  | fuel + 1 =>
    rw [readValue.eq_def] at read
    simp only at read
    split at read
    · obtain ⟨⟨s, left⟩, found, again⟩ := bind_ok read
      cases again
      obtain ⟨body, rfl, quoted⟩ := string_sound found
      exact ⟨0, _, by simp, .text quoted⟩
    · next r =>
      obtain ⟨w, space, cut⟩ := skip_cut r
      split at read
      · next left stop =>
        cases read
        rw [stop] at cut
        exact ⟨1, _, by simp [cut], .noItems space⟩
      · obtain ⟨⟨xs, left⟩, found, again⟩ := bind_ok read
        cases again
        obtain ⟨n, t, items, reads⟩ := readItems_sound found
        rw [items] at cut
        exact ⟨n + 1, _, by simp [cut], .list space reads⟩
    · next r =>
      obtain ⟨w, space, cut⟩ := skip_cut r
      split at read
      · next left stop =>
        cases read
        rw [stop] at cut
        exact ⟨1, _, by simp [cut], .noEntries space⟩
      · obtain ⟨⟨es, left⟩, found, again⟩ := bind_ok read
        cases again
        obtain ⟨n, t, more, entries, reads, rfl⟩ := readEntries_sound found
        rw [entries] at cut
        exact ⟨n + 1, _, by simp [cut], .dict space reads (Table.merges_insertAll more)⟩
    · obtain ⟨t, rfl, -, again⟩ := scalar_sound read
      exact ⟨0, t, rfl, .scalar again⟩

theorem readItems_sound {fuel : Nat} {vs : List Value} {cs rest : List Char}
    (read : readItems limit fuel cs = .ok (vs, rest)) :
    ∃ n t, cs = t ++ rest ∧ ReadsAsItems limit n vs t := by
  match fuel with
  | 0 => cases read
  | fuel + 1 =>
    rw [readItems] at read
    obtain ⟨⟨v, left⟩, found, behind⟩ := bind_ok read
    obtain ⟨n, t, rfl, value⟩ := readValue_sound found
    obtain ⟨w, space, cut⟩ := skip_cut left
    simp only at behind
    split at behind
    · next stop =>
      cases behind
      rw [stop] at cut
      exact ⟨n, _, by simp [cut], .last value space⟩
    · next after comma =>
      obtain ⟨⟨vs, last⟩, found, again⟩ := bind_ok behind
      cases again
      obtain ⟨w', space', cut'⟩ := skip_cut after
      obtain ⟨m, r, items, reads⟩ := readItems_sound found
      rw [comma, cut', items] at cut
      exact ⟨max n m, _, by simp [cut], .more value space space' reads⟩
    · cases behind

theorem readEntries_sound {fuel : Nat} {found es : List (String × Value)} {cs rest : List Char}
    (read : readEntries limit fuel found cs = .ok (es, rest)) : ∃ n t more, cs = t ++ rest ∧
      ReadsAsEntries limit n more t ∧ es = Table.insertAll found more := by
  match fuel with
  | 0 => cases read
  | fuel + 1 =>
    rw [readEntries.eq_def] at read
    simp only at read
    split at read
    · obtain ⟨⟨k, left⟩, key, behind⟩ := bind_ok read
      obtain ⟨body, rfl, quoted⟩ := string_sound key
      obtain ⟨w, space, cut⟩ := skip_cut left
      simp only at behind
      split at behind
      · next after colon =>
        obtain ⟨⟨v, left'⟩, given, behind'⟩ := bind_ok behind
        obtain ⟨w', space', cut'⟩ := skip_cut after
        obtain ⟨n, t, start, value⟩ := readValue_sound given
        obtain ⟨w'', space'', cut''⟩ := skip_cut left'
        rw [colon, cut', start] at cut
        simp only at behind'
        split at behind'
        · next stop =>
          cases behind'
          rw [stop] at cut''
          exact ⟨n, _, [(keyOfLetters k, v)], by simp [cut, cut''], .last quoted space space' value space'', rfl⟩
        · next after' comma =>
          obtain ⟨w₃, space₃, cut₃⟩ := skip_cut after'
          obtain ⟨m, r, more, entries, reads, rfl⟩ := readEntries_sound behind'
          rw [comma, cut₃, entries] at cut''
          exact ⟨max n m, _, (keyOfLetters k, v) :: more, by simp [cut, cut''],
            .more quoted space space' value space'' space₃ reads, rfl⟩
        · cases behind'
      · cases behind
    · cases read

end

/-- A document that is read is a text of the grammar with white space around it. -/
theorem document_sound (read : document limit cs = .ok v) : ∃ n w t w', cs = w ++ (t ++ w') ∧
    IsSpace w ∧ IsSpace w' ∧ ReadsAs limit n v t := by
  rw [document.eq_def] at read
  split at read
  · next c r =>
    split at read
    · cases read
    · obtain ⟨⟨v', left⟩, found, behind⟩ := bind_ok read
      obtain ⟨w, space, cut⟩ := skip_cut (c :: r)
      obtain ⟨n, t, start, reads⟩ := readValue_sound found
      obtain ⟨w', space', cut'⟩ := skip_cut left
      simp only at behind
      split at behind
      · next stop =>
        cases behind
        rw [stop, List.append_nil] at cut'
        rw [start, cut'] at cut
        exact ⟨n, w, t, w', cut, space, cut' ▸ space', reads⟩
      · cases behind
  · cases read

/-- The documents with a value are the texts of the grammar with white space around them. -/
theorem document_ok_iff : document limit cs = .ok v ↔ ∃ n w t w', cs = w ++ (t ++ w') ∧
    IsSpace w ∧ IsSpace w' ∧ ReadsAs limit n v t := by
  refine ⟨document_sound, ?_⟩
  rintro ⟨n, w, t, w', rfl, space, space', reads⟩
  exact document_reads space reads space'

end Values

section Depth

variable {most depth : Nat}

theorem tooDeep?_inString {c : Char} (quote : c ≠ '"') (backslash : c ≠ '\\') (r : List Char) :
    tooDeep? most depth true (c :: r) = tooDeep? most depth true r := by
  have other : (c != '"') = true := by simpa using quote
  rw [tooDeep?, other]
  rintro x r' rfl
  exact absurd rfl backslash

theorem hexNumber_plain {a b c d : Char} {n : Nat} (number : hexNumber a b c d = some n) :
    ∀ x ∈ [a, b, c, d], x ≠ '"' ∧ x ≠ '\\' := by
  have plain {x : Char} {n : Nat} (value : Text.hexValue? x = some n) : x ≠ '"' ∧ x ≠ '\\' := by
    constructor
    · rintro rfl
      cases value
    · rintro rfl
      cases value
  simp only [hexNumber, Option.bind_eq_bind, Option.bind_eq_some_iff] at number
  obtain ⟨_, first, _, second, _, third, _, fourth, -⟩ := number
  simp only [List.forall_mem_cons]
  exact ⟨plain first, plain second, plain third, plain fourth, by simp⟩

/-- The brackets in a string that is read do not count. -/
theorem tooDeep?_readString {cs rest : List Char} {s : List Text.Letter} (read : readString cs = .ok (s, rest)) :
    tooDeep? most depth true cs = tooDeep? most depth false rest := by
  fun_induction readString cs generalizing s with
  | case1 | case3 | case4 | case6 | case7 | case9 => cases read
  | case2 r =>
    cases read
    rfl
  | case5 a b c d r n number ih =>
    obtain ⟨s', inner, rfl⟩ := behind_ok read
    have found : r ≠ [] ∧ hexNumber a b c d = some n := by simpa using number
    have plain := hexNumber_plain found.2
    simp only [List.forall_mem_cons] at plain
    obtain ⟨first, second, third, fourth, -⟩ := plain
    rw [tooDeep?, tooDeep?_inString first.1 first.2, tooDeep?_inString second.1 second.2,
      tooDeep?_inString third.1 third.2, tooDeep?_inString fourth.1 fourth.2, ih inner]
  | case8 e r _ _ c letter ih =>
    obtain ⟨s', inner, rfl⟩ := behind_ok read
    rw [tooDeep?, ih inner]
  | case10 c r quote single _ _ double shown ih =>
    obtain ⟨s', inner, rfl⟩ := behind_ok read
    have backslash : c ≠ '\\' := fun same => by
      cases r with
      | nil => exact single same rfl
      | cons d r => exact double d r same rfl
    rw [tooDeep?_inString quote backslash, ih inner]

theorem tooDeep?_quotes {body : List Char} {s : List Text.Letter} (quoted : Quotes body s) (rest : List Char) :
    tooDeep? most depth false ('"' :: (body ++ '"' :: rest)) = tooDeep? most depth false rest := by
  have read := quoted rest
  rw [string] at read
  split at read
  · next t left found =>
    cases read
    exact tooDeep?_readString found
  · cases read
  · cases read

/-- A character outside of strings that opens and closes nothing. -/
def IsFlat (c : Char) : Prop := c ∉ ['"', '[', '\x7b', ']', '\x7d']

theorem tooDeep?_flat {t : List Char} (flat : ∀ c ∈ t, IsFlat c) (rest : List Char) :
    tooDeep? most depth false (t ++ rest) = tooDeep? most depth false rest := by
  induction t with
  | nil => rfl
  | cons c t ih =>
    obtain ⟨first, more⟩ := List.forall_mem_cons.1 flat
    simp only [IsFlat, List.mem_cons, not_or] at first
    obtain ⟨quote, bracket, brace, bracket', brace', -⟩ := first
    rw [List.cons_append, tooDeep?]
    simp only [beq_iff_eq, Bool.or_eq_true, quote, bracket, brace, bracket', brace', or_self, if_false]
    exact ih more

theorem isFlat_space {w : List Char} (space : IsSpace w) : ∀ c ∈ w, IsFlat c := by
  intro c mem
  have blank := space c mem
  simp only [isSpace, Bool.or_eq_true, beq_iff_eq] at blank
  obtain ((rfl | rfl) | rfl) | rfl := blank <;> simp [IsFlat]

theorem isFlat_number {c : Char} (h : isNumberChar c = true) : IsFlat c := by
  intro mem
  have none : ∀ c ∈ ['"', '[', '\x7b', ']', '\x7d'], isNumberChar c = false := Text.forall_chars (by decide)
  rw [none c mem] at h
  cases h

theorem tooDeep?_scalar {limit : Option Nat} {v : Value} {t : List Char} (read : scalar limit t = .ok (v, []))
    (rest : List Char) : tooDeep? most depth false (t ++ rest) = tooDeep? most depth false rest := by
  obtain ⟨t', cut, chars, -⟩ := scalar_sound read
  rw [List.append_nil] at cut
  rw [cut]
  exact tooDeep?_flat (fun c mem => isFlat_number (chars c mem)) rest

variable {r : List Char}

theorem tooDeep?_open {c : Char} (opens : c = '[' ∨ c = '\x7b') (fits : depth < most) :
    tooDeep? most depth false (c :: r) = tooDeep? most (depth + 1) false r := by
  obtain rfl | rfl := opens <;> simp [tooDeep?, Nat.not_le.2 fits]

theorem tooDeep?_full {c : Char} (opens : c = '[' ∨ c = '\x7b') (full : most ≤ depth) :
    tooDeep? most depth false (c :: r) = some (c == '[', r.length + 1) := by
  obtain rfl | rfl := opens <;> simp [tooDeep?, full]

theorem tooDeep?_close {c : Char} (closes : c = ']' ∨ c = '\x7d') :
    tooDeep? most (depth + 1) false (c :: r) = tooDeep? most depth false r := by
  obtain rfl | rfl := closes <;> simp [tooDeep?]

/-- Before what follows the text lists and objects are open to the second depth, if they are to the first one
before the text. -/
def Passes (most depth depth' : Nat) (t : List Char) : Prop :=
  ∀ rest, tooDeep? most depth false (t ++ rest) = tooDeep? most depth' false rest

theorem Passes.append {d d' d'' : Nat} {t t' : List Char} (h : Passes most d d' t) (h' : Passes most d' d'' t') :
    Passes most d d'' (t ++ t') :=
  fun rest => by rw [List.append_assoc, h, h']

theorem passes_flat {t : List Char} (flat : ∀ c ∈ t, IsFlat c) : Passes most depth depth t := tooDeep?_flat flat

theorem passes_space {w : List Char} (space : IsSpace w) : Passes most depth depth w :=
  passes_flat (isFlat_space space)

/-- A mark between two values, with white space around it. -/
theorem passes_mark {c : Char} (flat : IsFlat c) {w w' : List Char} (space : IsSpace w) (space' : IsSpace w') :
    Passes most depth depth (w ++ c :: w') :=
  (passes_space space).append (passes_flat (List.forall_mem_cons.2 ⟨flat, isFlat_space space'⟩))

theorem passes_comma {w w' : List Char} (space : IsSpace w) (space' : IsSpace w') :
    Passes most depth depth (w ++ ',' :: w') :=
  passes_mark (by simp [IsFlat]) space space'

/-- White space and the bracket or brace behind the last item. -/
theorem passes_close {c : Char} (closes : c = ']' ∨ c = '\x7d') {w : List Char} (space : IsSpace w) :
    Passes most (depth + 1) depth (w ++ [c]) :=
  (passes_space space).append fun _ => tooDeep?_close closes

theorem passes_open {c : Char} (opens : c = '[' ∨ c = '\x7b') (fits : depth < most) {w : List Char}
    (space : IsSpace w) : Passes most depth (depth + 1) (c :: w) :=
  Passes.append (t := [c]) (fun _ => tooDeep?_open opens fits) (passes_space space)

theorem passes_key {body w w' : List Char} {k : List Text.Letter} (quoted : Quotes body k) (space : IsSpace w)
    (space' : IsSpace w') : Passes most depth depth ('"' :: (body ++ '"' :: (w ++ ':' :: w'))) := by
  have colon : Passes most depth depth (w ++ ':' :: w') := passes_mark (by simp [IsFlat]) space space'
  intro rest
  have read : tooDeep? most depth false _ = _ := tooDeep?_quotes quoted ((w ++ ':' :: w') ++ rest)
  rw [colon] at read
  simpa using read

end Depth

theorem fits_max {most depth n m : Nat} (fits : depth + max n m ≤ most) : depth + n ≤ most ∧ depth + m ≤ most := by
  omega

mutual

/-- Nothing in the text of a value lies too deep if its lists and objects do not. -/
theorem ReadsAs.shallow {limit : Option Nat} {most n depth : Nat} {v : Value} {t : List Char}
    (h : ReadsAs limit n v t) (fits : depth + n ≤ most) : Passes most depth depth t := by
  match h with
  | .scalar read => exact tooDeep?_scalar read
  | .text quoted => exact fun rest => by simpa using tooDeep?_quotes quoted rest
  | .noItems space => exact (passes_open (.inl rfl) (by omega) isSpace_nil).append (passes_close (.inl rfl) space)
  | .list space items =>
    exact (passes_open (.inl rfl) (by omega) space).append (items.shallow (by omega))
  | .noEntries space => exact (passes_open (.inr rfl) (by omega) isSpace_nil).append (passes_close (.inr rfl) space)
  | .dict space entries _ =>
    exact (passes_open (.inr rfl) (by omega) space).append (entries.shallow (by omega))

theorem ReadsAsItems.shallow {limit : Option Nat} {most n depth : Nat} {vs : List Value} {t : List Char}
    (h : ReadsAsItems limit n vs t) (fits : depth + 1 + n ≤ most) : Passes most (depth + 1) depth t := by
  match h with
  | .last value space => exact (value.shallow (by omega)).append (passes_close (.inl rfl) space)
  | .more value space space' items =>
    obtain ⟨first, others⟩ := fits_max fits
    have all := ((value.shallow first).append (passes_comma space space')).append (items.shallow others)
    simpa using all

theorem ReadsAsEntries.shallow {limit : Option Nat} {most n depth : Nat} {es : List (String × Value)}
    {t : List Char} (h : ReadsAsEntries limit n es t) (fits : depth + 1 + n ≤ most) :
    Passes most (depth + 1) depth t := by
  match h with
  | .last quoted space space' value space'' =>
    have all := ((passes_key quoted space space').append (value.shallow (by omega))).append
      (passes_close (.inr rfl) space'')
    simpa using all
  | .more quoted space space' value space'' space₃ entries =>
    obtain ⟨first, others⟩ := fits_max fits
    have all := (((passes_key quoted space space').append (value.shallow first)).append
      (passes_comma space'' space₃)).append (entries.shallow others)
    simpa using all

end

/-- The first bracket of a text that lies too deep stands between the two parts of the text. -/
structure Breaks (most depth : Nat) (t p q : List Char) : Prop where
  cut : t = p ++ q
  found : ∀ rest, ∃ isList, tooDeep? most depth false (t ++ rest) = some (isList, q.length + rest.length)

theorem Breaks.behind {most depth depth' : Nat} {a t p q : List Char} (h : Breaks most depth' t p q)
    (passes : Passes most depth depth' a) (b : List Char) : Breaks most depth (a ++ (t ++ b)) (a ++ p) (q ++ b) where
  cut := by rw [h.cut]; simp
  found rest := by
    obtain ⟨isList, found⟩ := h.found (b ++ rest)
    refine ⟨isList, ?_⟩
    rw [List.append_assoc, passes, List.append_assoc, found]
    simp [Nat.add_assoc]

theorem breaks_open {most depth : Nat} {c : Char} (opens : c = '[' ∨ c = '\x7b') (full : most ≤ depth)
    (t : List Char) : Breaks most depth (c :: t) [] (c :: t) where
  cut := rfl
  found rest := ⟨c == '[', by rw [List.cons_append, tooDeep?_full opens full]; simp; omega⟩

/-- The reader wants a value where the text ends. -/
def wanting : Stop := .at "Expecting value" 0

section Wanting

variable {limit : Option Nat} {fuel : Nat} {p q w : List Char}

theorem readValue_nil : readValue limit (fuel + 1) [] = .error wanting := by
  rw [readValue]
  · rfl
  all_goals
    rintro r ⟨⟩

theorem opens_part (opens : ∃ c r, p ++ q = c :: r ∧ Opens c) : ∀ c ∈ p.head?, Opens c := by
  obtain ⟨c, r, same, opens⟩ := opens
  cases p with
  | nil => simp
  | cons d p =>
    rintro _ ⟨⟩
    rwa [(List.cons.inj same).1]

theorem skip_part (space : IsSpace w) (opens : ∀ c ∈ p.head?, Opens c) : skip (w ++ p) = p := by
  cases p with
  | nil =>
    rw [List.append_nil]
    exact List.dropWhile_eq_nil_iff.2 space
  | cons c p => exact skip_append space (opens c rfl).1 p

theorem readValue_list_error {stop : Stop} (space : IsSpace w) (opens : ∀ c ∈ p.head?, Opens c)
    (items : readItems limit fuel p = .error stop) :
    readValue limit (fuel + 1) ('[' :: (w ++ p)) = .error stop := by
  simp only [readValue, skip_part space opens]
  split
  · exact absurd rfl (opens _ rfl).2.1
  · rw [items]
    rfl

theorem readValue_dict_error {stop : Stop} (space : IsSpace w)
    (entries : readEntries limit fuel [] ('"' :: p) = .error stop) :
    readValue limit (fuel + 1) ('\x7b' :: (w ++ '"' :: p)) = .error stop := by
  simp only [readValue, skip_append space (by decide : isSpace '"' = false)]
  change (readEntries limit fuel [] ('"' :: p) >>= _) = _
  rw [entries]
  rfl

theorem readItems_error {stop : Stop} (value : readValue limit fuel p = .error stop) :
    readItems limit (fuel + 1) p = .error stop := by
  rw [readItems, value]
  rfl

theorem readItems_more_error {stop : Stop} {v : Value} {t w' : List Char}
    (read : readValue limit fuel (t ++ (w ++ ',' :: (w' ++ p))) = .ok (v, w ++ ',' :: (w' ++ p)))
    (space : IsSpace w) (space' : IsSpace w') (opens : ∀ c ∈ p.head?, Opens c)
    (items : readItems limit fuel p = .error stop) :
    readItems limit (fuel + 1) (t ++ (w ++ ',' :: (w' ++ p))) = .error stop := by
  simp only [readItems, read, bind, Except.bind, skip_append space (by decide : isSpace ',' = false),
    skip_part space' opens, items]

theorem readEntries_error {stop : Stop} {found : List (String × Value)} {k : List Text.Letter} {body w' : List Char}
    (quoted : Quotes body k) (space : IsSpace w) (space' : IsSpace w') (opens : ∀ c ∈ p.head?, Opens c)
    (value : readValue limit fuel p = .error stop) :
    readEntries limit (fuel + 1) found ('"' :: (body ++ '"' :: (w ++ ':' :: (w' ++ p)))) = .error stop := by
  simp only [readEntries, quoted _, bind, Except.bind, skip_append space (by decide : isSpace ':' = false),
    skip_part space' opens, value]

theorem readEntries_more_error {stop : Stop} {found : List (String × Value)} {k : List Text.Letter} {v : Value}
    {body w' w'' w₃ t : List Char} (quoted : Quotes body k) (space : IsSpace w) (space' : IsSpace w')
    (opens : ∃ c r, t = c :: r ∧ Opens c)
    (read : readValue limit fuel (t ++ (w'' ++ ',' :: (w₃ ++ '"' :: p))) =
      .ok (v, w'' ++ ',' :: (w₃ ++ '"' :: p)))
    (space'' : IsSpace w'') (space₃ : IsSpace w₃)
    (more : readEntries limit fuel (Table.insert (keyOfLetters k) v found) ('"' :: p) = .error stop) :
    readEntries limit (fuel + 1) found
      ('"' :: (body ++ '"' :: (w ++ ':' :: (w' ++ (t ++ (w'' ++ ',' :: (w₃ ++ '"' :: p))))))) = .error stop := by
  obtain ⟨c, s, rfl, opens⟩ := opens
  rw [List.cons_append] at read ⊢
  simp only [readEntries, quoted _, bind, Except.bind, skip_append space (by decide : isSpace ':' = false),
    skip_append space' opens.1, read, skip_append space'' (by decide : isSpace ',' = false),
    skip_append space₃ (by decide : isSpace '"' = false), more]

end Wanting

/-- Something in the text lies too deep. Up to its bracket everything is right, so a reader with two steps for each
character and some more wants a value there. -/
def LiesDeep {α : Type} (most depth : Nat) (t : List Char) (more : Nat)
    (read : (fuel : Nat) → List Char → Except Stop α) : Prop :=
  ∃ p q, Breaks most depth t p q ∧ ∀ fuel, 2 * p.length + more < fuel → read fuel p = .error wanting

section Deep

variable {limit : Option Nat} {most depth : Nat} {t : List Char}

/-- The bound leaves the reader its first step, so what it does without one need not be said. -/
theorem LiesDeep.of_succ {α : Type} {more : Nat} {read : (fuel : Nat) → List Char → Except Stop α} {p q : List Char}
    (breaks : Breaks most depth t p q)
    (wants : ∀ fuel, 2 * p.length + more ≤ fuel → read (fuel + 1) p = .error wanting) :
    LiesDeep most depth t more read := by
  refine ⟨p, q, breaks, fun fuel enough => ?_⟩
  obtain ⟨fuel, rfl⟩ := Nat.exists_eq_succ_of_ne_zero (Nat.ne_zero_of_lt enough)
  exact wants fuel (Nat.le_of_lt_succ enough)

theorem liesDeep_open {c : Char} (opens : c = '[' ∨ c = '\x7b') (full : most ≤ depth) :
    LiesDeep most depth (c :: t) 0 (readValue limit) :=
  .of_succ (breaks_open opens full _) fun _ _ => readValue_nil

theorem liesDeep_list {w : List Char} (fits : depth < most) (space : IsSpace w) (opens : ∃ c r, t = c :: r ∧ Opens c)
    (items : LiesDeep most (depth + 1) t 1 (readItems limit)) :
    LiesDeep most depth ('[' :: (w ++ t)) 0 (readValue limit) := by
  obtain ⟨p, q, breaks, wants⟩ := items
  have first := opens_part (breaks.cut ▸ opens)
  refine .of_succ (by simpa using breaks.behind (passes_open (.inl rfl) fits space) []) fun fuel enough => ?_
  exact readValue_list_error space first (wants fuel (by simp at enough; omega))

theorem liesDeep_item (value : LiesDeep most depth t 0 (readValue limit)) (b : List Char) :
    LiesDeep most depth (t ++ b) 1 (readItems limit) := by
  obtain ⟨p, q, breaks, wants⟩ := value
  refine .of_succ (by simpa using breaks.behind (passes_space isSpace_nil) b) fun fuel enough => ?_
  exact readItems_error (wants fuel enough)

theorem liesDeep_items {n : Nat} {v : Value} {w w' r : List Char} (value : ReadsAs limit n v t)
    (fits : depth + n ≤ most) (space : IsSpace w) (space' : IsSpace w') (opens : ∃ c s, r = c :: s ∧ Opens c)
    (items : LiesDeep most depth r 1 (readItems limit)) :
    LiesDeep most depth (t ++ (w ++ ',' :: (w' ++ r))) 1 (readItems limit) := by
  obtain ⟨p, q, breaks, wants⟩ := items
  have first := opens_part (breaks.cut ▸ opens)
  have passes := (value.shallow fits).append (passes_comma space space')
  refine .of_succ (by simpa using breaks.behind passes []) fun fuel enough => ?_
  have read := value.read fuel (by simp at enough; omega)
    (delimits_space space (by decide : isDelimiter ',' = true) (w' ++ p))
  simpa using readItems_more_error read space space' first (wants fuel (by simp at enough; omega))

theorem wanting_entries {p : List Char} {fuel : Nat} {found : List (String × Value)}
    (wants : readEntries limit (fuel + 1) found p = .error wanting) : ∃ r, p = '"' :: r := by
  rw [readEntries.eq_def] at wants
  simp only at wants
  split at wants
  · exact ⟨_, rfl⟩
  · simp [wanting] at wants

theorem liesDeep_dict {w : List Char} (fits : depth < most) (space : IsSpace w)
    (entries : LiesDeep most (depth + 1) t 1 fun fuel => readEntries limit fuel []) :
    LiesDeep most depth ('\x7b' :: (w ++ t)) 0 (readValue limit) := by
  obtain ⟨p, q, breaks, wants⟩ := entries
  obtain ⟨p, rfl⟩ := wanting_entries (wants (2 * p.length + 1 + 1) (by omega))
  refine .of_succ (by simpa using breaks.behind (passes_open (.inr rfl) fits space) []) fun fuel enough => ?_
  exact readValue_dict_error space (wants fuel (by simp at enough ⊢; omega))

variable {k : List Text.Letter} {body w w' : List Char} (quoted : Quotes body k) (space : IsSpace w)
  (space' : IsSpace w') (found : List (String × Value))

include quoted space space'

theorem liesDeep_entry (opens : ∃ c s, t = c :: s ∧ Opens c) (value : LiesDeep most depth t 0 (readValue limit))
    (b : List Char) : LiesDeep most depth ('"' :: (body ++ '"' :: (w ++ ':' :: (w' ++ (t ++ b))))) 1
      fun fuel => readEntries limit fuel found := by
  obtain ⟨p, q, breaks, wants⟩ := value
  have first := opens_part (breaks.cut ▸ opens)
  refine .of_succ (by simpa using breaks.behind (passes_key quoted space space') b) fun fuel enough => ?_
  simpa using readEntries_error quoted space space' first (wants fuel (by simp at enough; omega))

theorem liesDeep_entries {n : Nat} {v : Value} {w'' w₃ r : List Char} (value : ReadsAs limit n v t)
    (fits : depth + n ≤ most) (space'' : IsSpace w'') (space₃ : IsSpace w₃)
    (entries : LiesDeep most depth r 1 fun fuel => readEntries limit fuel (Table.insert (keyOfLetters k) v found)) :
    LiesDeep most depth ('"' :: (body ++ '"' :: (w ++ ':' :: (w' ++ (t ++ (w'' ++ ',' :: (w₃ ++ r))))))) 1
      fun fuel => readEntries limit fuel found := by
  obtain ⟨p, q, breaks, wants⟩ := entries
  obtain ⟨p, rfl⟩ := wanting_entries (wants (2 * p.length + 1 + 1) (by omega))
  have passes := ((passes_key quoted space space').append (value.shallow fits)).append (passes_comma space'' space₃)
  refine .of_succ (by simpa using breaks.behind passes []) fun fuel enough => ?_
  have read := value.read fuel (by simp at enough; omega)
    (delimits_space space'' (by decide : isDelimiter ',' = true) (w₃ ++ '"' :: p))
  simpa using readEntries_more_error quoted space space' value.opens read space'' space₃
    (wants fuel (by simp at enough ⊢; omega))

end Deep

mutual

/-- What the reader makes of the text of a value in which something lies too deep. -/
theorem ReadsAs.deep {limit : Option Nat} {most n depth : Nat} {v : Value} {t : List Char}
    (h : ReadsAs limit n v t) (within : depth ≤ most) (deep : most < depth + n) :
    LiesDeep most depth t 0 (readValue limit) := by
  by_cases full : most ≤ depth
  · match h with
    | .scalar _ | .text _ => omega
    | .noItems _ | .list _ _ => exact liesDeep_open (.inl rfl) full
    | .noEntries _ | .dict _ _ _ => exact liesDeep_open (.inr rfl) full
  · match h with
    | .scalar _ | .text _ | .noItems _ | .noEntries _ => omega
    | .list space items =>
      exact liesDeep_list (not_le.1 full) space items.opens (items.deep (not_le.1 full) (by omega))
    | .dict space entries _ =>
      exact liesDeep_dict (not_le.1 full) space (entries.deep [] (not_le.1 full) (by omega))

theorem ReadsAsItems.deep {limit : Option Nat} {most n depth : Nat} {vs : List Value} {t : List Char}
    (h : ReadsAsItems limit n vs t) (within : depth ≤ most) (deep : most < depth + n) :
    LiesDeep most depth t 1 (readItems limit) := by
  match h with
  | .last value _ => exact liesDeep_item (value.deep within deep) _
  | @ReadsAsItems.more _ n m v _ t w w' r value space space' items =>
    by_cases lies : most < depth + n
    · exact liesDeep_item (value.deep within lies) _
    · exact liesDeep_items value (not_lt.1 lies) space space' items.opens (items.deep within (by omega))

theorem ReadsAsEntries.deep {limit : Option Nat} {most n depth : Nat} {es : List (String × Value)} {t : List Char}
    (h : ReadsAsEntries limit n es t) (found : List (String × Value)) (within : depth ≤ most)
    (deep : most < depth + n) : LiesDeep most depth t 1 fun fuel => readEntries limit fuel found := by
  match h with
  | .last quoted space space' value _ =>
    exact liesDeep_entry quoted space space' found value.opens (value.deep within deep) _
  | @ReadsAsEntries.more _ n m k v _ body w w' t w'' w₃ r quoted space space' value space'' space₃ entries =>
    by_cases lies : most < depth + n
    · exact liesDeep_entry quoted space space' found value.opens (value.deep within lies) _
    · exact liesDeep_entries quoted space space' found value (not_lt.1 lies) space'' space₃
        (entries.deep (Table.insert (keyOfLetters k) v found) within (by omega))

end

/-- A text that ends where a value has to come. -/
theorem document_wanting {limit : Option Nat} {w p : List Char} (space : IsSpace w) (opens : ∀ c ∈ p.head?, Opens c)
    (wants : ∀ fuel, 2 * p.length + 0 < fuel → readValue limit fuel p = .error wanting) :
    document limit (w ++ p) = .error wanting := by
  have start : skip (w ++ p) = p := skip_part space opens
  have whole := wants (2 * (w ++ p).length + 2) (by simp; omega)
  cases text : w ++ p with
  | nil => rfl
  | cons c r =>
    have mark := start_noMark space opens text
    rw [text] at start whole
    simp only [document, mark, start, whole, bind, Except.bind, Bool.false_eq_true, if_false]

end Pagesmith.Value.Reader

namespace Pagesmith.Value
open Reader

/-- The text of a document: a value of the grammar with white space around it, whose lists and objects do not lie too
deep. -/
def IsDocument (v : Value) (s : String) : Prop :=
  ∃ n ≤ nestingLimit, ∃ w t w', s.toList = w ++ (t ++ w') ∧ IsSpace w ∧ IsSpace w' ∧ ReadsAs (some digitLimit) n v t

theorem ofJson?_eq_ok {s : String} {v : Value} (read : ofJson? s = .ok v) :
    document (some digitLimit) s.toList = .ok v := by
  rw [ofJson?] at read
  split at read
  · next found =>
    cases read
    exact found
  · cases read
  · cases read

/-- The limit of nesting refuses documents and changes none. -/
theorem ofJson?_of_ofDocument? {s : String} {v : Value} (h : ofDocument? s = .ok v) :
    ofJson? s = .ok v := by
  have whole : (ofJson? s).mapError Fault.notJson = .ok v := by
    rw [ofDocument?] at h
    split at h
    · exact h
    · split at h
      · cases h
      · exact h
  cases read : ofJson? s with
  | ok w =>
    rw [read] at whole
    exact congrArg Except.ok (Except.ok.inj whole)
  | error cause =>
    rw [read] at whole
    cases whole

/-- A text in which something lies too deep is refused, whatever comes behind that place. -/
theorem ofDocument?_deep {s : String} {v : Value} {n : Nat} {w t w' : List Char} (cut : s.toList = w ++ (t ++ w'))
    (space : IsSpace w) (reads : ReadsAs (some digitLimit) n v t) (deep : nestingLimit < n) :
    ∃ isList, ofDocument? s = .error (.jsonTooDeep isList) := by
  obtain ⟨p, q, breaks, wants⟩ := reads.deep (Nat.zero_le _) (by rwa [Nat.zero_add])
  have opens := opens_part (breaks.cut ▸ reads.opens)
  obtain ⟨isList, found⟩ := breaks.found w'
  refine ⟨isList, ?_⟩
  have before : s.toList.take (s.toList.length - (q.length + w'.length)) = w ++ p := by
    have text : s.toList = (w ++ p) ++ (q ++ w') := by rw [cut, breaks.cut]; simp
    rw [text, ← List.length_append, List.length_append, Nat.add_sub_cancel, List.take_left]
  have found : tooDeep? nestingLimit 0 false s.toList = some (isList, q.length + w'.length) := by
    rw [cut, passes_space space, found]
  simp only [ofDocument?, found, before, expectsValue, document_wanting space opens wants]
  rfl

/-- The documents with a value are those that the grammar has and that are not nested too deep. -/
theorem ofDocument?_ok_iff {s : String} {v : Value} : ofDocument? s = .ok v ↔ IsDocument v s := by
  constructor
  · intro read
    obtain ⟨n, w, t, w', cut, space, space', reads⟩ :=
      document_ok_iff.1 (ofJson?_eq_ok (ofJson?_of_ofDocument? read))
    refine ⟨n, ?_, w, t, w', cut, space, space', reads⟩
    by_contra deep
    obtain ⟨isList, refused⟩ := ofDocument?_deep cut space reads (not_le.1 deep)
    rw [read] at refused
    cases refused
  · rintro ⟨n, fits, w, t, w', cut, space, space', reads⟩
    have shallow : tooDeep? nestingLimit 0 false s.toList = none := by
      have inner : Passes nestingLimit 0 0 t := reads.shallow (by rwa [Nat.zero_add])
      have whole := ((passes_space space).append inner).append (passes_space space') []
      rw [cut]
      simpa [tooDeep?] using whole
    have read : ofJson? s = .ok v := by
      rw [ofJson?, document_ok_iff.2 ⟨n, w, t, w', cut, space, space', reads⟩]
    simp only [ofDocument?, shallow, read]
    rfl

end Pagesmith.Value
