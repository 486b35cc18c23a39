import Pagesmith.Proofs.Text.Character
import Pagesmith.Text.Name

/-!
Identifiers: what is made from a text is one, and one is left as it is. Names that end in a text from outside keep
of it only what an identifier can hold, so two texts give the same name if they differ in other characters only.
-/

namespace Pagesmith.Text

/-- An identifier: not empty, no digit first, and identifier characters only. -/
def IsName (s : String) : Prop :=
  ∃ c r, s.toList = c :: r ∧ isNameStart c = true ∧ ∀ d ∈ r, isNameChar d = true

theorem isName_iff {s : String} :
    IsName s ↔ (s.toList.head?.any isNameStart && s.toList.tail.all isNameChar) = true := by
  rw [IsName, Bool.and_eq_true, List.all_eq_true]
  cases s.toList with
  | nil => simp
  | cons c r =>
    constructor
    · rintro ⟨_, _, ⟨⟩, start, rest⟩
      exact ⟨start, rest⟩
    · rintro ⟨start, rest⟩
      exact ⟨c, r, rfl, start, rest⟩

instance (s : String) : Decidable (IsName s) := decidable_of_iff _ isName_iff.symm

theorem isNameChar_iff {c : Char} : isNameChar c = true ↔
    ('A' ≤ c ∧ c ≤ 'Z') ∨ ('a' ≤ c ∧ c ≤ 'z') ∨ ('0' ≤ c ∧ c ≤ '9') ∨ c = '_' ∨ c = '$' := by
  have upper : c.isUpper = true ↔ 'A' ≤ c ∧ c ≤ 'Z' := decide_eq_true_iff
  have lower : c.isLower = true ↔ 'a' ≤ c ∧ c ≤ 'z' :=
    Bool.and_eq_true_iff.trans (and_congr decide_eq_true_iff decide_eq_true_iff)
  have digit : c.isDigit = true ↔ '0' ≤ c ∧ c ≤ '9' :=
    Bool.and_eq_true_iff.trans (and_congr decide_eq_true_iff decide_eq_true_iff)
  change (((c.isUpper || c.isLower) || c.isDigit) || c == '_' || c == '$') = true ↔ _
  simp only [Bool.or_eq_true, beq_iff_eq, upper, lower, digit, or_assoc]

theorem isNameStart_of_isNameChar {c : Char} (h : isNameChar c = true) (digit : c.isDigit = false) :
    isNameStart c = true := by
  simpa [isNameStart, isNameChar, Char.isAlphanum, digit] using h

theorem isNameChar_of_isNameStart {c : Char} (h : isNameStart c = true) : isNameChar c = true := by
  simp only [isNameStart, isNameChar, Char.isAlphanum, Bool.or_eq_true] at h ⊢
  tauto

theorem isNameStart_digit {c : Char} (h : isNameStart c = true) : c.isDigit = false := by
  by_contra digit
  have digit := isDigit_range (by simpa using digit)
  simp only [isNameStart, Bool.or_eq_true, beq_iff_eq] at h
  obtain (letter | rfl) | rfl := h
  · have := isAlpha_range letter
    omega
  · exact absurd digit (by decide)
  · exact absurd digit (by decide)

theorem isNameChar_nameChars (cs : List Char) : ∀ c ∈ nameChars cs, isNameChar c = true := by
  intro c mem
  obtain ⟨d, -, rfl⟩ := List.mem_map.1 mem
  split
  · assumption
  · rfl

theorem nameChars_self {cs : List Char} (h : ∀ c ∈ cs, isNameChar c = true) : nameChars cs = cs :=
  (List.map_congr_left fun c mem => if_pos (h c mem)).trans (List.map_id cs)

theorem isName_toIdentifier (s : String) : IsName (toIdentifier s) := by
  have chars := isNameChar_nameChars s.toList
  rw [toIdentifier]
  split
  case h_1 => exact ⟨'_', [], rfl, rfl, by simp⟩
  case h_2 c r start =>
    rw [start] at chars
    have first := chars c (by simp)
    have rest := fun d mem => chars d (List.mem_cons_of_mem c mem)
    split
    case isTrue => exact ⟨'_', c :: r, String.toList_ofList, rfl, chars⟩
    case isFalse digit =>
      exact ⟨c, r, String.toList_ofList, isNameStart_of_isNameChar first (by simpa using digit), rest⟩

theorem IsName.chars {s : String} (h : IsName s) : ∀ c ∈ s.toList, isNameChar c = true := by
  obtain ⟨c, r, text, start, rest⟩ := h
  rw [text]
  simp only [List.forall_mem_cons]
  exact ⟨isNameChar_of_isNameStart start, rest⟩

theorem toIdentifier_isName {s : String} (h : IsName s) : toIdentifier s = s := by
  have chars := nameChars_self h.chars
  obtain ⟨c, r, text, start, -⟩ := h
  rw [text] at chars
  simp only [toIdentifier, text, chars, isNameStart_digit start, Bool.false_eq_true, if_false]
  rw [← text, String.ofList_toList]

/-- Exactly the identifiers are left as they are. -/
theorem toIdentifier_eq_self_iff {s : String} : toIdentifier s = s ↔ IsName s :=
  ⟨fun same => same ▸ isName_toIdentifier s, toIdentifier_isName⟩

theorem IsName.append {s t : String} (h : IsName s) (more : ∀ c ∈ t.toList, isNameChar c = true) :
    IsName (s ++ t) := by
  obtain ⟨c, r, text, start, rest⟩ := h
  refine ⟨c, r ++ t.toList, by simp [text], start, ?_⟩
  simp only [List.mem_append]
  rintro d (mem | mem)
  · exact rest d mem
  · exact more d mem

theorem isNameTail_chars {cs : List Char} (h : ∀ c ∈ cs, isNameChar c = true) :
    isNameTail cs = true := by
  induction cs with
  | nil => rfl
  | cons c r ih =>
    rw [List.forall_mem_cons] at h
    rw [isNameTail.eq_def]
    split
    · rfl
    · rfl
    · next same =>
      obtain ⟨rfl, rfl⟩ := List.cons.inj same
      rw [h.1, ih h.2, Bool.and_self]

theorem IsName.isIdentifier {s : String} (h : IsName s) : isIdentifier s = true := by
  obtain ⟨c, r, text, start, rest⟩ := h
  rw [Text.isIdentifier, text]
  simp only [start, isNameTail_chars rest, Bool.and_self]

/-- An identifier is a name, but for a line feed that may end it. -/
theorem isIdentifier_cases {s : String} (h : isIdentifier s = true) :
    IsName s ∨ ∃ t, IsName t ∧ s = t ++ "\n" := by
  have tail {cs : List Char} (h : isNameTail cs = true) : (∀ c ∈ cs, isNameChar c = true) ∨
      ∃ ds, cs = ds ++ ['\n'] ∧ ∀ c ∈ ds, isNameChar c = true := by
    fun_induction isNameTail cs with
    | case1 => exact .inl (by simp)
    | case2 => exact .inr ⟨[], rfl, by simp⟩
    | case3 c r _ ih =>
      rw [Bool.and_eq_true] at h
      obtain all | ⟨ds, rfl, all⟩ := ih h.2
      · exact .inl (List.forall_mem_cons.2 ⟨h.1, all⟩)
      · exact .inr ⟨c :: ds, rfl, List.forall_mem_cons.2 ⟨h.1, all⟩⟩
  rw [isIdentifier] at h
  split at h
  · cases h
  · next c r text =>
    rw [Bool.and_eq_true] at h
    obtain all | ⟨ds, rfl, all⟩ := tail h.2
    · exact .inl ⟨c, r, text, h.1, all⟩
    · refine .inr ⟨String.ofList (c :: ds), ⟨c, ds, String.toList_ofList, h.1, all⟩, ?_⟩
      rw [← String.toList_inj, text, String.toList_append, String.toList_ofList]
      rfl

theorem isNameTail_lineFeed {cs : List Char} (h : ∀ c ∈ cs, isNameChar c = true) :
    isNameTail (cs ++ ['\n']) = true := by
  induction cs with
  | nil => rfl
  | cons c r ih =>
    rw [List.forall_mem_cons] at h
    rw [List.cons_append, isNameTail, h.1, ih h.2, Bool.and_self]
    simp

theorem isIdentifier_iff {s : String} :
    isIdentifier s = true ↔ IsName s ∨ ∃ t, IsName t ∧ s = t ++ "\n" := by
  refine ⟨isIdentifier_cases, ?_⟩
  rintro (isName | ⟨t, ⟨c, r, text, start, rest⟩, rfl⟩)
  · exact isName.isIdentifier
  · have lineFeed : ("\n" : String).toList = ['\n'] := rfl
    rw [isIdentifier, String.toList_append, text, lineFeed, List.cons_append]
    simp only [start, isNameTail_lineFeed rest, Bool.and_self]

/-- The text starts with this character. -/
def HasHead (c : Char) (s : String) : Prop := s.toList.head? = some c

instance (c : Char) (s : String) : Decidable (HasHead c s) := inferInstanceAs (Decidable (_ = _))

theorem HasHead.ne {c d : Char} {s t : String} (h : HasHead c s) (h' : HasHead d t) (other : c ≠ d) :
    s ≠ t := by
  rintro rfl
  exact other (Option.some.inj (h.symm.trans h'))

theorem HasHead.cons {c : Char} {s : String} (h : HasHead c s) : ∃ r, s.toList = c :: r :=
  List.head?_eq_some_iff.1 h

theorem HasHead.append {c : Char} {s : String} (h : HasHead c s) (t : String) : HasHead c (s ++ t) := by
  obtain ⟨r, text⟩ := h.cons
  simp [HasHead, text]

theorem HasHead.toIdentifier {c : Char} {s : String} (h : HasHead c s) (start : isNameStart c = true) :
    HasHead c (Text.toIdentifier s) := by
  obtain ⟨r, text⟩ := h.cons
  have chars : nameChars s.toList = c :: nameChars r := by
    simp [text, nameChars, isNameChar_of_isNameStart start]
  simp [HasHead, Text.toIdentifier, chars, isNameStart_digit start]

theorem hasHead_stateName {c : Char} {prop : String} (h : HasHead c prop)
    (start : isNameStart c = true) (id : String) : HasHead c (stateName prop id) :=
  ((h.append "_").append id).toIdentifier start

theorem hasHead_handle : HasHead 'h' "handle" := rfl

theorem hasHead_methodName (method id : String) : HasHead 'h' (methodName method id) := by
  have base : HasHead 'h'
      (if hasStart "handle" method then method else "handle" ++ upperFirst method) := by
    split
    · next start =>
      obtain ⟨r, text⟩ := List.isPrefixOf_iff_prefix.1 start
      simp [HasHead, ← text]
    · exact hasHead_handle.append _
  exact ((base.append "_").append id).toIdentifier rfl

theorem hasHead_handlerName (prop id : String) : HasHead 'h' (handlerName prop id) :=
  (((hasHead_handle.append _).append "_").append id).toIdentifier rfl

theorem toList_setterName (s : String) :
    (setterName s).toList = 's' :: 'e' :: 't' :: (upperFirst s).toList := by
  simp [setterName]

theorem toList_upperFirst {c : Char} {s : String} (h : HasHead c s) (low : c.toNat < 0x80) :
    (upperFirst s).toList = c.toUpper :: s.toList.tail := by
  obtain ⟨r, text⟩ := h.cons
  simp [upperFirst, upperChar, text, low]

/-- States whose names start alike have the same setter only if they are the same. -/
theorem setterName_inj {c d : Char} {s t : String} (hs : HasHead c s) (ht : HasHead d t)
    (lowC : c.toNat < 0x80) (lowD : d.toNat < 0x80) (case : c.toUpper = d.toUpper → c = d)
    (same : setterName s = setterName t) : s = t := by
  have texts := congrArg String.toList same
  simp only [toList_setterName, toList_upperFirst hs lowC, toList_upperFirst ht lowD, List.cons.injEq,
    true_and] at texts
  obtain ⟨first, rest⟩ := texts
  obtain rfl := case first
  obtain ⟨r, textS⟩ := hs.cons
  obtain ⟨r', textT⟩ := ht.cons
  rw [textS, textT] at rest
  rw [← String.toList_inj, textS, textT]
  exact congrArg _ rest

section Alike

variable {s t u : String}

/-- Two texts that look the same once every character outside identifiers is an underscore. -/
def ReadsAlike (s t : String) : Prop := nameChars s.toList = nameChars t.toList

instance (s t : String) : Decidable (ReadsAlike s t) := inferInstanceAs (Decidable (_ = _))

theorem ReadsAlike.refl (s : String) : ReadsAlike s s := rfl

theorem ReadsAlike.symm (h : ReadsAlike s t) : ReadsAlike t s := Eq.symm h

theorem toList_toIdentifier_append (h : IsName s) (t : String) :
    (toIdentifier (s ++ t)).toList = s.toList ++ nameChars t.toList := by
  have chars : nameChars (s ++ t).toList = s.toList ++ nameChars t.toList := by
    have head : nameChars s.toList = s.toList := nameChars_self h.chars
    rw [String.toList_append, nameChars, List.map_append]
    exact congrArg (· ++ _) head
  obtain ⟨c, r, text, start, -⟩ := h
  rw [text, List.cons_append] at chars
  rw [toIdentifier, chars, text]
  simp [isNameStart_digit start]

theorem toIdentifier_append_inj (h : IsName s) :
    toIdentifier (s ++ t) = toIdentifier (s ++ u) ↔ ReadsAlike t u := by
  rw [← String.toList_inj, toList_toIdentifier_append h, toList_toIdentifier_append h,
    List.append_cancel_left_eq, ReadsAlike]

theorem className_inj : className s = className t ↔ ReadsAlike s t :=
  toIdentifier_append_inj (by decide)

/-- Names with different heads can be the same only if one head is the beginning of the other. -/
theorem prefix_of_toIdentifier_append {s s' : String} (h : IsName s) (h' : IsName s')
    (same : toIdentifier (s ++ t) = toIdentifier (s' ++ u)) :
    s.toList <+: s'.toList ∨ s'.toList <+: s.toList := by
  have chars := congrArg String.toList same
  rw [toList_toIdentifier_append h, toList_toIdentifier_append h'] at chars
  refine List.prefix_or_prefix_of_prefix (List.prefix_append _ (nameChars t.toList)) ?_
  rw [chars]
  exact List.prefix_append _ _

end Alike

end Pagesmith.Text
