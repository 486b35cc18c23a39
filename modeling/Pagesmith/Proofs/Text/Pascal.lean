import Pagesmith.Proofs.Text.Name

/-!
Component names. A component name is put together from the words of a text, each with a capital first. It is an
identifier without signs that starts with a capital, and such a name is its own component name. A number behind an
underscore comes through as it is, so the numbered forms of a text have different component names.
-/

namespace Pagesmith.Text

variable {c : Char} {cs : List Char}

/-- A letter or digit at the start of a run is a digit or becomes a capital. -/
theorem toUpper_start (h : c.isAlphanum = true) : c.toUpper.isDigit = true ∨ c.toUpper.isUpper = true := by
  have range := isAlphanum_range h
  by_cases small : 97 ≤ c.toNat ∧ c.toNat ≤ 122
  · have capital := toUpper_small small
    exact .inr (isUpper_iff.2 (by omega))
  · rw [toUpper_other small]
    obtain digit | letter : (48 ≤ c.toNat ∧ c.toNat ≤ 57) ∨ (65 ≤ c.toNat ∧ c.toNat ≤ 90) := by omega
    · exact .inl (Char.isDigit_iff_toNat.2 digit)
    · exact .inr (isUpper_iff.2 letter)

theorem toUpper_isAlphanum (h : c.isAlphanum = true) : c.toUpper.isAlphanum = true := by
  obtain digit | capital := toUpper_start h
  · simp [Char.isAlphanum, digit]
  · exact isAlphanum_upper (isUpper_iff.1 capital)

theorem toUpper_isDigit (h : c.isDigit = true) : c.toUpper = c := by
  have range := isDigit_range h
  exact toUpper_other (by omega)

theorem toUpper_isUpper (h : c.isUpper = true) : c.toUpper = c := by
  have range := isUpper_iff.1 h
  exact toUpper_other (by omega)

theorem isDigit_isUpper (h : c.isUpper = true) : c.isDigit = false := by
  by_contra digit
  have digit := isDigit_range (by simpa using digit)
  have range := isUpper_iff.1 h
  omega

/-- A character that is no letter and no digit starts a new run. -/
theorem capitalRuns_cut (cut : c.isAlphanum = false) (start : Bool) (cs r : List Char) :
    capitalRuns start (cs ++ c :: r) = capitalRuns start cs ++ capitalRuns true r := by
  induction cs generalizing start with
  | nil => simp [capitalRuns, cut]
  | cons d cs ih =>
    simp only [List.cons_append, capitalRuns]
    split
    · rw [ih, List.cons_append]
    · exact ih true

theorem capitalRuns_digits (h : ∀ c ∈ cs, c.isDigit = true) (start : Bool) :
    capitalRuns start cs = cs := by
  induction cs generalizing start with
  | nil => rfl
  | cons c r ih =>
    obtain ⟨digit, rest⟩ := List.forall_mem_cons.1 h
    have known : c.isAlphanum = true := by simp [Char.isAlphanum, digit]
    rw [capitalRuns, if_pos known, ih rest, toUpper_isDigit digit, ite_self]

/-- Inside a run nothing is changed. -/
theorem capitalRuns_inside (h : ∀ c ∈ cs, c.isAlphanum = true) : capitalRuns false cs = cs := by
  induction cs with
  | nil => rfl
  | cons c r ih =>
    obtain ⟨known, rest⟩ := List.forall_mem_cons.1 h
    rw [capitalRuns, if_pos known, ih rest]
    rfl

theorem capitalRuns_isAlphanum (start : Bool) (cs : List Char) :
    ∀ c ∈ capitalRuns start cs, c.isAlphanum = true := by
  induction cs generalizing start with
  | nil => exact fun c mem => nomatch mem
  | cons d r ih =>
    rw [capitalRuns]
    split
    · next known =>
      refine List.forall_mem_cons.2 ⟨?_, ih false⟩
      cases start with
      | true => exact toUpper_isAlphanum known
      | false => exact known
    · exact ih true

theorem capitalRuns_head (cs : List Char) :
    ∀ c ∈ (capitalRuns true cs).head?, c.isDigit = true ∨ c.isUpper = true := by
  induction cs with
  | nil => exact fun c mem => nomatch mem
  | cons d r ih =>
    rw [capitalRuns]
    split
    · next known =>
      rintro c ⟨⟩
      exact toUpper_start known
    · exact ih

section Words

/-- A space is put in front of each capital that stands behind a small letter or a digit. -/
def spaced : List Char → List Char
  | c :: d :: r =>
    if (c.isLower || c.isDigit) && d.isUpper then c :: ' ' :: d :: spaced r
    else c :: spaced (d :: r)
  | cs => cs

/-- The words of a text: what stands between signs once the capitals are set apart. -/
def words (cs : List Char) : List (List Char) :=
  ((spaced cs).splitOnP fun c => !c.isAlphanum).filter fun w => !w.isEmpty

/-- The word with a capital first. -/
def capitalised : List Char → List Char
  | [] => []
  | c :: r => c.toUpper :: r

/-- Spaces in front of capitals make no difference: a capital that starts a run stays what it is inside one. -/
theorem capitalRuns_spaced (start : Bool) (cs : List Char) :
    capitalRuns start (spaced cs) = capitalRuns start cs := by
  fun_induction spaced cs generalizing start with
  | case1 c d r boundary ih =>
    simp only [Bool.and_eq_true, Bool.or_eq_true] at boundary
    obtain ⟨small, capital⟩ := boundary
    have known : c.isAlphanum = true := by
      rw [Char.isAlphanum, Bool.or_eq_true, isAlpha_iff]
      exact small.imp_left .inr
    have known' : d.isAlphanum = true := isAlphanum_upper (isUpper_iff.1 capital)
    have space : (' ').isAlphanum = false := by decide
    simp [capitalRuns, known, known', space, toUpper_isUpper capital, ih]
  | case2 c d r _ ih => simp only [capitalRuns, ih]
  | case3 => rfl

/-- Runs are the pieces between signs with a capital first; only the first piece may go on with a run. -/
theorem capitalRuns_pieces {start : Bool} {p : List Char} {ps : List (List Char)}
    (cut : (cs.splitOnP fun c => !c.isAlphanum) = p :: ps) :
    capitalRuns start cs = (if start then capitalised p else p) ++ ps.flatMap capitalised := by
  induction cs generalizing start p ps with
  | nil =>
    obtain ⟨rfl, rfl⟩ : [] = p ∧ [] = ps := by simpa using cut
    cases start <;> rfl
  | cons c r ih =>
    obtain ⟨q, qs, rest⟩ := List.exists_cons_of_ne_nil (List.splitOnP_ne_nil (fun c => !c.isAlphanum) r)
    rw [List.splitOnP_cons_eq_if_modifyHead, rest] at cut
    rw [capitalRuns]
    split
    case isTrue known =>
      obtain ⟨rfl, rfl⟩ : c :: q = p ∧ qs = ps := by simpa [known] using cut
      rw [ih rest]
      cases start <;> rfl
    case isFalse sign =>
      obtain ⟨rfl, rfl⟩ : [] = p ∧ q :: qs = ps := by simpa [sign] using cut
      rw [ih rest]
      cases start <;> rfl

theorem capitalised_filled (ps : List (List Char)) :
    (ps.filter fun p => !p.isEmpty).flatMap capitalised = ps.flatMap capitalised := by
  induction ps with
  | nil => rfl
  | cons p ps ih => cases p <;> simp [capitalised, ih]

theorem capitalRuns_words (cs : List Char) : capitalRuns true cs = (words cs).flatMap capitalised := by
  obtain ⟨p, ps, cut⟩ :=
    List.exists_cons_of_ne_nil (List.splitOnP_ne_nil (fun c => !c.isAlphanum) (spaced cs))
  rw [words, capitalised_filled, cut, ← capitalRuns_spaced, capitalRuns_pieces cut]
  rfl

end Words

/-- The characters of a component name, from its runs. -/
def componentChars : List Char → List Char
  | [] => "Index".toList
  | c :: r => if c.isDigit then "Page".toList ++ c :: r else c :: r

theorem toList_pascalCase (s : String) :
    (pascalCase s).toList = componentChars (capitalRuns true s.toList) := by
  rw [pascalCase]
  cases capitalRuns true s.toList with
  | nil => rfl
  | cons c r =>
    simp only [componentChars]
    split
    · simp
    · simp

/-- A component name: a capital first, and letters and digits of ASCII after it. -/
def IsComponentName (s : String) : Prop :=
  ∃ c r, s.toList = c :: r ∧ c.isUpper = true ∧ ∀ d ∈ r, d.isAlphanum = true

theorem IsComponentName.isAlphanum {s : String} (h : IsComponentName s) :
    ∀ c ∈ s.toList, c.isAlphanum = true := by
  obtain ⟨c, r, text, capital, rest⟩ := h
  rw [text]
  exact List.forall_mem_cons.2 ⟨isAlphanum_upper (isUpper_iff.1 capital), rest⟩

theorem IsComponentName.isName {s : String} (h : IsComponentName s) : IsName s := by
  obtain ⟨c, r, text, capital, rest⟩ := h
  refine ⟨c, r, text, by simp [isNameStart, isAlpha_iff.2 (.inl capital)], fun d mem => ?_⟩
  simp [isNameChar, rest d mem]

theorem isComponentName_pascalCase (s : String) : IsComponentName (pascalCase s) := by
  have runs := capitalRuns_isAlphanum true s.toList
  have first := capitalRuns_head s.toList
  rw [IsComponentName, toList_pascalCase]
  cases found : capitalRuns true s.toList with
  | nil => exact ⟨'I', "ndex".toList, rfl, rfl, forall_chars (by decide)⟩
  | cons c r =>
    rw [found] at runs first
    rw [componentChars]
    split
    · refine ⟨'P', "age".toList ++ c :: r, rfl, rfl, ?_⟩
      simp only [List.forall_mem_append]
      exact ⟨forall_chars (by decide), runs⟩
    · next digit => exact ⟨c, r, rfl, (first c rfl).resolve_left digit, (List.forall_mem_cons.1 runs).2⟩

theorem pascalCase_isAlphanum (s : String) : ∀ c ∈ (pascalCase s).toList, c.isAlphanum = true :=
  (isComponentName_pascalCase s).isAlphanum

theorem isName_pascalCase (s : String) : IsName (pascalCase s) :=
  (isComponentName_pascalCase s).isName

/-- No component is called by a name with a small first letter. -/
theorem pascalCase_ne (s : String) {t : String} (small : ∃ c ∈ t.toList.head?, 97 ≤ c.toNat) :
    pascalCase s ≠ t := by
  rintro rfl
  obtain ⟨c, r, text, capital, -⟩ := isComponentName_pascalCase s
  obtain ⟨d, mem, range⟩ := small
  obtain rfl : c = d := by simpa [text] using mem
  have := isUpper_iff.1 capital
  omega

theorem pascalCase_isComponentName {s : String} (h : IsComponentName s) : pascalCase s = s := by
  obtain ⟨c, r, text, capital, rest⟩ := h
  have known : c.isAlphanum = true := isAlphanum_upper (isUpper_iff.1 capital)
  -- The name is one run whose capital is there already, and nothing has to be put in front of it.
  have runs : capitalRuns true (c :: r) = c :: r := by
    rw [capitalRuns, if_pos known, capitalRuns_inside rest, if_pos rfl, toUpper_isUpper capital]
  rw [← String.toList_inj, toList_pascalCase, text, runs, componentChars, isDigit_isUpper capital]
  rfl

/-- Exactly the component names are left as they are. -/
theorem pascalCase_eq_self_iff {s : String} : pascalCase s = s ↔ IsComponentName s :=
  ⟨fun same => same ▸ isComponentName_pascalCase s, pascalCase_isComponentName⟩

/-- The runs of a numbered text are those of the text, and the number. -/
theorem capitalRuns_numbered (base : String) (k : Nat) :
    capitalRuns true (base ++ "_" ++ toString k).toList =
      capitalRuns true base.toList ++ (toString k).toList := by
  have text : (base ++ "_" ++ toString k).toList = base.toList ++ '_' :: (toString k).toList := by
    simp
  rw [text, capitalRuns_cut (by decide), capitalRuns_digits (isDigit_toString k)]

theorem componentChars_append_inj {ds ds' : List Char} (digits : ∀ c ∈ ds, c.isDigit = true)
    (digits' : ∀ c ∈ ds', c.isDigit = true) (some : ds ≠ []) (some' : ds' ≠ [])
    (same : componentChars (cs ++ ds) = componentChars (cs ++ ds')) : ds = ds' := by
  -- Without a text before it a number is put behind the same word, and that again can be taken off.
  match cs with
  | c :: r =>
    simp only [List.cons_append, componentChars] at same
    split at same
    · simpa using same
    · simpa using same
  | [] =>
    obtain ⟨c, r, rfl⟩ := List.exists_cons_of_ne_nil some
    obtain ⟨c', r', rfl⟩ := List.exists_cons_of_ne_nil some'
    simpa [componentChars, digits c, digits' c'] using same

/-- The number of a numbered text can be told from its component name. -/
theorem pascalCase_numbered_inj {base : String} {i j : Nat}
    (same : pascalCase (base ++ "_" ++ toString i) = pascalCase (base ++ "_" ++ toString j)) :
    i = j := by
  have chars := congrArg String.toList same
  simp only [toList_pascalCase, capitalRuns_numbered] at chars
  exact toString_inj (componentChars_append_inj (isDigit_toString i) (isDigit_toString j)
    (by simp) (by simp) chars)

/-- The text itself cannot be told: a number may also end it. -/
example : pascalCase "a1_2" = pascalCase "a_12" := by decide

/-- What is made of a text is the sequence of its words, each with a capital first, or a fixed name where there are no
words, with a word put in front of a digit. It is a component name and stays what it is when a component name is made
of it again; and a text has different component names under different numbers. -/
theorem pascalCase_formed_and_apart (s : String) :
    (pascalCase s).toList = componentChars ((words s.toList).flatMap capitalised) ∧
    IsComponentName (pascalCase s) ∧
    pascalCase (pascalCase s) = pascalCase s ∧
    ∀ m n : Nat, pascalCase (s ++ "_" ++ toString m) = pascalCase (s ++ "_" ++ toString n) ↔ m = n := by
  have isComponentName := isComponentName_pascalCase s
  refine ⟨?_, isComponentName, pascalCase_eq_self_iff.2 isComponentName, fun m n => ?_⟩
  · rw [toList_pascalCase, capitalRuns_words]
  · constructor
    · exact pascalCase_numbered_inj
    · rintro rfl
      rfl

end Pagesmith.Text
