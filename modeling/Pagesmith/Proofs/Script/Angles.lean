import Pagesmith.Proofs.Job
import Pagesmith.Proofs.Script.Literal
import Pagesmith.Proofs.Script.Statement

/-!
Opening angle brackets in generated code. Names and literals hold none, cutting a text into lines and moving
it right neither adds nor loses any, and so a statement has as many as its parts.
-/

namespace Pagesmith

namespace Text

/-- How many opening angle brackets stand in the text. -/
def angles (s : String) : Nat := s.toList.count '<'

@[simp]
theorem angles_append (s t : String) : angles (s ++ t) = angles s + angles t := by
  simp [angles]

theorem angles_free {s : String} (free : '<' ∉ s.toList) : angles s = 0 := List.count_eq_zero.2 free

theorem mem_cutAt {separator c : Char} {text rest : List Char} (h : (cutAt separator text).2 = some rest)
    (mem : c ∈ rest) : c ∈ text := by
  induction text with
  | nil => cases h
  | cons d r ih =>
    rw [cutAt] at h
    split at h
    · cases h
      exact List.mem_cons_of_mem _ mem
    · exact List.mem_cons_of_mem _ (ih h)

theorem angles_intercalate {sep : String} (free : angles sep = 0) (texts : List String) :
    angles (String.intercalate sep texts) = (texts.map angles).sum := by
  induction texts with
  | nil => rfl
  | cons s r ih =>
    match r with
    | [] => simp
    | t :: r => simp [String.intercalate_cons_cons, free, ih]

theorem angles_unlines (ls : List String) : angles (unlines ls) = (ls.map angles).sum :=
  angles_intercalate rfl ls

theorem angles_join (texts : List String) : angles (String.join texts) = (texts.map angles).sum := by
  rw [angles, String.toList_join, List.count_flatMap]
  rfl

/-- A line end is no bracket, so none is lost between the lines. -/
theorem count_splitLines (cs : List Char) :
    ((splitLines cs).map (List.count '<')).sum = cs.count '<' := by
  induction n : cs.length using Nat.strong_induction_on generalizing cs with
  | _ n ih =>
    subst n
    match cs with
    | [] => rfl
    | c :: r =>
      by_cases ends : isLineEnd c = true
      · obtain ⟨s, rest, lines⟩ := splitLines_end ends r
        have short : s.length < (c :: r).length ∧ s.count '<' = r.count '<' := by
          obtain rfl | rfl := rest
          · simp
          · exact ⟨by simp only [List.length_cons]; omega, by simp⟩
        have other : c ≠ '<' := by
          rintro rfl
          cases ends
        rw [lines, List.map_cons, List.sum_cons, ih s.length short.1 s rfl, short.2,
          List.count_cons_of_ne other]
        simp
      · have rest := ih r.length (by simp) r rfl
        rw [splitLines_plain (by simpa using ends), List.count_cons, ← rest]
        cases splitLines r with
        | nil => simp [List.count_singleton]
        | cons l ls =>
          simp only [List.map_cons, List.sum_cons, List.count_cons]
          omega

theorem angles_lines (s : String) : ((lines s).map angles).sum = angles s := by
  rw [angles, ← count_splitLines, lines, List.map_map]
  simp [angles, Function.comp_def]

theorem angles_nameChars {s : String} (h : ∀ c ∈ s.toList, isNameChar c = true) : angles s = 0 :=
  angles_free fun mem => absurd (h _ mem) (by decide)

theorem IsName.angles {s : String} (h : IsName s) : Text.angles s = 0 := angles_nameChars h.chars

theorem angles_isIdentifier {s : String} (h : isIdentifier s = true) : angles s = 0 := by
  obtain isName | ⟨t, isName, rfl⟩ := isIdentifier_cases h
  · exact isName.angles
  · rw [angles_append, isName.angles]
    rfl

theorem isNameChar_toUpper {c : Char} (h : isNameChar c = true) : isNameChar c.toUpper = true := by
  by_cases small : 97 ≤ c.toNat ∧ c.toNat ≤ 122
  · have upper := toUpper_small small
    have letter : c.toUpper.isAlphanum = true := isAlphanum_upper (by omega)
    simp [isNameChar, letter]
  · rwa [toUpper_other small]

theorem IsName.setterName {s : String} (h : IsName s) : IsName (setterName s) := by
  have chars := h.chars
  obtain ⟨c, r, text, -⟩ := h
  rw [text, List.forall_mem_cons] at chars
  have low : c.toNat < 0x80 := by
    have letter := chars.1
    simp only [isNameChar, Bool.or_eq_true, beq_iff_eq] at letter
    obtain (letter | rfl) | rfl := letter
    · have := isAlphanum_range letter
      omega
    · decide
    · decide
  have set : IsName "set" := by decide
  refine set.append ?_
  simp only [upperFirst, text, upperChar, if_pos low, String.toList_ofList, List.cons_append,
    List.nil_append, List.forall_mem_cons]
  exact ⟨isNameChar_toUpper chars.1, chars.2⟩

end Text

namespace Script
open Text

@[simp]
theorem angles_stringLiteral (s : String) : angles (stringLiteral s) = 0 :=
  angles_free fun mem => (isInert_codeText (Value.shown_jsonString s) _ mem).1 rfl

@[simp]
theorem angles_literalText (v : Value) : angles (literalText v) = 0 :=
  angles_free fun mem => (isInert_codeText (Value.shown_json v) _ mem).1 rfl

theorem literal_angles (v : Value) : Job.Yields (literal v) fun s => angles s = 0 := by
  intro log s ok
  rw [literal_outcome] at ok
  split at ok
  · cases ok
  · cases ok
    exact angles_literalText v

@[simp]
theorem angles_indentation (n : Nat) : angles (indentation n) = 0 := by
  simp [angles, indentation, List.count_replicate]

@[simp]
theorem angles_indentBlock (n : Nat) (s : String) : angles (indentBlock n s) = angles s := by
  have moved (l : String) : angles (if l == "" then l else indentation n ++ l) = angles l := by
    split <;> simp
  simp only [indentBlock, angles_unlines, List.map_map, Function.comp_def, moved]
  exact angles_lines s

theorem angles_arrowFunction (name params : String) (statements : List String) :
    angles (arrowFunction name params statements) =
      angles name + angles params + (statements.map angles).sum := by
  have inner : angles (unlines (statements.map (indentBlock 1))) = (statements.map angles).sum := by
    simp [angles_unlines, Function.comp_def]
  rw [← inner]
  simp only [arrowFunction, angles_append]
  generalize unlines (statements.map (indentBlock 1)) = body
  split
  · next empty =>
    rw [eq_of_beq empty]
    simp [angles]
  · simp [angles]

theorem angles_stateHook {name literal : String} (isName : IsName name) (free : angles literal = 0) :
    angles (stateHook name literal) = 0 := by
  simp only [stateHook, angles_append, isName.angles, isName.setterName.angles, free]
  rfl

theorem angles_setterCall {state literal : String} (isName : IsName state) (free : angles literal = 0) :
    angles (setterCall state literal) = 0 := by
  simp only [setterCall, angles_append, isName.setterName.angles, free]
  rfl

theorem angles_fetchEffect (url : String) {setter : String} (isName : IsName setter) :
    angles (fetchEffect url setter) = 0 := by
  simp only [fetchEffect, angles_unlines, List.map_cons, List.map_nil, angles_append, angles_stringLiteral,
    isName.angles]
  rfl

theorem angles_componentBlocks (sections : List (List String)) (markup : String) :
    ((componentBlocks sections markup).map angles).sum = (sections.flatten.map angles).sum + angles markup := by
  have gap : angles "\n\n" = 0 := rfl
  have block (statements : List String) :
      angles (String.intercalate "\n\n" (statements.map (indentBlock 1))) = (statements.map angles).sum := by
    simp [angles_intercalate gap, Function.comp_def]
  have returned : angles (if markup == "" then indentation 2 ++ "null" else indentBlock 2 markup) =
      angles markup := by
    split
    · next empty =>
      rw [eq_of_beq empty]
      rfl
    · exact angles_indentBlock 2 markup
  have frame : angles indentStep = 0 ∧ angles "return (\n" = 0 ∧ angles "\n" = 0 ∧ angles ");" = 0 := by decide
  rw [componentBlocks, List.map_append, List.sum_append, List.map_map]
  simp only [List.map_cons, List.map_nil, List.sum_cons, List.sum_nil, angles_append, returned, frame,
    Function.comp_def, block, Nat.zero_add, Nat.add_zero, Nat.add_right_cancel_iff]
  induction sections with
  | nil => rfl
  | cons statements r ih =>
    rw [List.filter_cons, List.flatten_cons, List.map_append, List.sum_append, ← ih]
    cases statements <;> simp

/-- A component has the brackets of its sections and of its markup. -/
theorem angles_functionComponent {name : String} (isName : IsName name) (sections : List (List String))
    (markup : String) : angles (functionComponent name sections markup) =
      (sections.flatten.map angles).sum + angles markup := by
  have gap : angles "\n\n" = 0 := rfl
  have frame : angles "const " = 0 ∧ angles ": React.FC = () => \x7b\n" = 0 ∧
      angles "\n\x7d;\n\nexport default " = 0 ∧ angles ";\n" = 0 := by decide
  simp only [functionComponent_eq, angles_append, isName.angles, angles_intercalate gap,
    angles_componentBlocks, frame, Nat.zero_add, Nat.add_zero]

end Script

end Pagesmith
