import Pagesmith.Component.Handler
import Pagesmith.Proofs.Component.Rendered

/-!
Texts that are used as identifiers without being made into one. A text is checked at two places: where an action
calls a function of the page, and where an icon is chosen. The check lets through what is left as it is when an
identifier is made of it, and such a text with a line feed at its end, which is called and imported with the line
feed.
-/

namespace Pagesmith
namespace Component
open Build Pagesmith.Module Text

/-- One or more of the letters, digits, underscores and dollar signs of ASCII, and no digit first. -/
structure Spelled (s : String) : Prop where
  filled : s ≠ ""
  chars : ∀ c ∈ s.toList, ('A' ≤ c ∧ c ≤ 'Z') ∨ ('a' ≤ c ∧ c ≤ 'z') ∨ ('0' ≤ c ∧ c ≤ '9') ∨ c = '_' ∨ c = '$'
  start : ∀ c ∈ s.toList.head?, ¬ ('0' ≤ c ∧ c ≤ '9')

theorem isName_spelled {s : String} (h : IsName s) : Spelled s where
  filled := by
    rintro rfl
    obtain ⟨_, _, ⟨⟩, -⟩ := h
  chars c mem := isNameChar_iff.1 (h.chars c mem)
  start := by
    obtain ⟨c, r, text, start, -⟩ := h
    rw [text]
    rintro _ ⟨⟩ digit
    have : c.isDigit = true := by simpa [Char.isDigit, Char.le_def] using digit
    rw [isNameStart_digit start] at this
    cases this

/-- Making an identifier of the text changes nothing in it but a line feed at its end. -/
def Kept (s : String) : Prop := toIdentifier s = s ∨ ∃ t, toIdentifier t = t ∧ s = t ++ "\n"

theorem isIdentifier_iff_kept {s : String} : isIdentifier s = true ↔ Kept s := by
  simp only [isIdentifier_iff, Kept, toIdentifier_eq_self_iff]

section Calls

theorem warning_no_call (t s : String) : Handlers.warning t ≠ s ++ "();" := by
  intro same
  have ends := congrArg (fun text => text.toList.reverse) same
  simp [Handlers.warning, String.toList_append, Script.toList_stringLiteral] at ends

/-- The faults over which a call of a value is not written: the value is no text and has none. -/
def callFaults (target : Value) : Set Fault := {f | f = .longNumber ∧ target.holdsLongNumber = true}

/-- The call of `s` is written exactly if `s` is what is called and passes for an identifier. -/
theorem callStatement_calls (target : Value) (s : String) :
    (Handlers.callStatement target).Completes (callFaults target) fun text =>
      text = s ++ "();" ↔ target = .str s ∧ isIdentifier s = true := by
  have shown : Job.Meets (callFaults target) (fun _ => True) target.text? := by
    rw [Value.text?]
    split
    · next long => exact ⟨rfl, long⟩
    · trivial
  have warned : Job.Completes (do
      Job.note (Handlers.targetNotice target)
      let shown ← target.text?
      pure (Handlers.warning ("Invalid method reference: " ++ shown))) (callFaults target)
      fun text => text ≠ s ++ "();" :=
    (Job.Completes.note _).bind fun _ _ => .bind (.ofExcept shown) fun shown _ => .pure (warning_no_call _ s)
  rw [Handlers.callStatement.eq_def]
  split
  case h_1 given =>
    split
    case isTrue accepted =>
      refine .pure ⟨fun same => ?_, ?_⟩
      · obtain rfl : given = s := by simpa using same
        exact ⟨rfl, accepted⟩
      · rintro ⟨⟨⟩, -⟩
        rfl
    case isFalse refused =>
      refine warned.mono fun text other => ⟨(absurd · other), ?_⟩
      rintro ⟨⟨⟩, accepted⟩
      exact absurd accepted refused
  case h_2 noText =>
    refine warned.mono fun text other => ⟨(absurd · other), ?_⟩
    rintro ⟨rfl, -⟩
    exact absurd rfl (noText s)

end Calls

section Icons

variable {s : String}

theorem Kept.filled (h : Kept s) : s ≠ "" := by
  rintro rfl
  exact absurd (isIdentifier_iff_kept.2 h) (by decide)

theorem Kept.undotted (h : Kept s) : '.' ∉ s.toList := by
  have name {t : String} (same : toIdentifier t = t) : '.' ∉ t.toList := fun mem =>
    absurd ((toIdentifier_eq_self_iff.1 same).chars _ mem) (by decide)
  obtain same | ⟨t, same, rfl⟩ := h
  · exact name same
  · rw [String.toList_append, List.mem_append, not_or]
    exact ⟨name same, by decide⟩

/-- What an icon wants to be called in the module, and what stands for it among the bindings. -/
theorem icon_wish (filled : s ≠ "") : desiredName (Catalogue.iconImport (some s)) (some s) = toIdentifier s ∧
    bindingKey (Catalogue.iconImport (some s)) (some s) = (Catalogue.iconPackage, s) := by
  have given : givenText (some s) = some s := by simp [givenText, filled]
  constructor
  · simp [desiredName, given]
  · simp [bindingKey, exportOf, Catalogue.iconImport, given]

/-- A free name is the wish itself exactly if the wish was an identifier. -/
theorem firstFree_self_iff {taken : List String} {name : String} (h : IsFirstFree taken (toIdentifier s) name)
    (free : s ∉ taken) : name = s ↔ toIdentifier s = s := by
  constructor
  · rintro rfl
    exact toIdentifier_isName (h.isName (isName_toIdentifier _))
  · intro same
    obtain ⟨k, rfl, -, before⟩ := h
    cases k with
    | zero => exact same
    | succ k =>
      have taken := before 0 (by omega)
      rw [candidate, same] at taken
      exact absurd taken free

/-- An icon that passes for an identifier is taken from the icons as it is called, under the first free name for the
identifier that is made of it. -/
theorem icon_imported (kept : Kept s) {m : Module} (new : m.bound.lookup (Catalogue.iconPackage, s) = none) :
    (importedTag (Catalogue.iconName (.str s))
      (Catalogue.iconImport (some (Catalogue.iconName (.str s))))).Ensures m fun r m' => ∃ name, r = .ok name ∧
        IsFirstFree m.reserved (toIdentifier s) name ∧
        (m'.entryOf Catalogue.iconPackage).named.lookup s = some name := by
  have chosen : Catalogue.iconName (.str s) = s := if_pos (isIdentifier_iff_kept.2 kept)
  obtain ⟨wish, key⟩ := icon_wish kept.filled
  have whole := cutAt_whole kept.undotted
  have head : tagHead s = s := by simp [tagHead, whole]
  have rest : tagRest s = "" := by simp [tagRest, whole]
  have sourced : (Catalogue.iconImport (some s)).source ≠ "" := by
    change Catalogue.iconPackage ≠ ""
    decide
  rw [chosen, importedTag_sourced sourced, head, rest]
  refine .bind ((addImport_ensures _ _ m).mono ?_)
  rw [key, wish]
  rintro _ m' ⟨name, rfl, ⟨none, -, -⟩ | ⟨-, found, -⟩ | ⟨-, -, first, rfl⟩⟩
  · exact absurd none sourced
  · rw [new] at found
    cases found
  · refine .pure ⟨name, by rw [String.append_empty], first, ?_⟩
    have same : Catalogue.iconPackage = (Catalogue.iconImport (some s)).source := rfl
    have braces : (Catalogue.iconImport (some s)).destructured = true := rfl
    rw [entryOf_bind, if_pos same, ImportEntry.add, if_pos braces, Table.lookup_insert]
    simp

end Icons

/-- Of every text an identifier can be made, and of that itself. The check of a text lets through what is left as it
is, and one line feed behind it. So an action may call a name with a line feed behind it, and an icon of such a name
is imported as it is called but never under that name; all other icons are, as long as their name is free. -/
theorem identifiers_checked (s : String) :
    (Spelled (toIdentifier s) ∧ toIdentifier (toIdentifier s) = toIdentifier s) ∧
    (isIdentifier s = true ↔ toIdentifier s = s ∨ ∃ t, toIdentifier t = t ∧ s = t ++ "\n") ∧
    (∀ a m, (Handlers.statement .callMethod a).Ensures m fun r m' => m' = m ∧ match r with
      | .error f => f = .longNumber ∧ (Handlers.callTarget (a.setting "methodName")).holdsLongNumber = true
      | .ok text => text = s ++ "();" ↔ Handlers.callTarget (a.setting "methodName") = .str s ∧
        (toIdentifier s = s ∨ ∃ t, toIdentifier t = t ∧ s = t ++ "\n")) ∧
    (isIdentifier s = true → ∀ m, m.bound.lookup (Catalogue.iconPackage, s) = none →
      (importedTag (Catalogue.iconName (.str s))
        (Catalogue.iconImport (some (Catalogue.iconName (.str s))))).Ensures m fun r m' => ∃ name, r = .ok name ∧
          IsFirstFree m.reserved (toIdentifier s) name ∧
          (m'.entryOf Catalogue.iconPackage).named.lookup s = some name ∧
          (s ∉ m.reserved → (name = s ↔ toIdentifier s = s))) := by
  have isName := isName_toIdentifier s
  refine ⟨⟨isName_spelled isName, toIdentifier_isName isName⟩, isIdentifier_iff_kept, fun a m => ?_,
    fun accepted m new => ?_⟩
  · have calls := callStatement_calls (Handlers.callTarget (a.setting "methodName")) s
    have named : (Handlers.statement .callMethod a).Ensures m fun r m' =>
        m' = m ∧ Job.Meets _ _ r := .ofJob fun log => ⟨rfl, calls log⟩
    refine named.mono fun r m' ⟨same, outcome⟩ => ⟨same, ?_⟩
    cases r with
    | error f => exact outcome
    | ok text => exact Iff.trans outcome (and_congr_right fun _ => isIdentifier_iff_kept)
  · refine (icon_imported (isIdentifier_iff_kept.1 accepted) new).mono ?_
    rintro r m' ⟨name, done, first, entry⟩
    exact ⟨name, done, first, entry, firstFree_self_iff first⟩

/-- A name with a line feed behind it passes for an identifier, though it is none: it is called as it is, and an icon
of this name is imported under another one. -/
theorem lineFeed_passes : isIdentifier "a\n" = true ∧ toIdentifier "a\n" = "a_" ∧
    (Handlers.statement .callMethod ⟨"callMethod", .dict [("methodName", .str "a\n")]⟩).Ensures (new "Index")
      (fun r _ => r = .ok "a\n();") ∧
    (importedTag (Catalogue.iconName (.str "a\n"))
      (Catalogue.iconImport (some (Catalogue.iconName (.str "a\n"))))).Ensures (new "Index") fun r m =>
        ∃ name, r = .ok name ∧ name ≠ "a\n" ∧ (m.entryOf Catalogue.iconPackage).named.lookup "a\n" = some name := by
  obtain ⟨-, checked, called, imported⟩ := identifiers_checked "a\n"
  have kept : toIdentifier "a\n" = "a\n" ∨ ∃ t, toIdentifier t = t ∧ "a\n" = t ++ "\n" :=
    .inr ⟨"a", by decide, by decide⟩
  have changed : toIdentifier "a\n" = "a_" := by decide
  refine ⟨checked.2 kept, changed, (called _ _).mono ?_, (imported (checked.2 kept) _ rfl).mono ?_⟩
  · rintro r m' ⟨-, outcome⟩
    cases r with
    | error f => exact nomatch outcome.2
    | ok text =>
      rw [outcome.2 ⟨rfl, kept⟩]
      rfl
  · rintro r m' ⟨name, done, -, entry, own⟩
    exact ⟨name, done, fun same => absurd ((own (by decide)).1 same) (by decide), entry⟩

end Component
end Pagesmith
