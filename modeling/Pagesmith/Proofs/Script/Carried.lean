import Pagesmith.Proofs.Script.Literal
import Pagesmith.Proofs.Text.Line

/-!
The literals of the texts in a value. Each stands in the literal of the whole value, and holds a line
end only if the text holds the next line character, the one line end that no escape is made for.
-/

namespace Pagesmith

namespace Value

mutual

/-- The texts in a value, keys among them, as far as JSON has a form for it. -/
def strings : Value → List String
  | str s => [s]
  | list xs | tuple xs => stringsOfItems xs
  | dict es => stringsOfEntries es
  | _ => []

/-- The texts in the items of a sequence. -/
def stringsOfItems : List Value → List String
  | [] => []
  | x :: r => strings x ++ stringsOfItems r

/-- The texts in the entries of a mapping. -/
def stringsOfEntries : List (String × Value) → List String
  | [] => []
  | (k, x) :: r => k :: (strings x ++ stringsOfEntries r)

end

end Value

namespace Script
open Text Value

mutual

theorem holds_json {s : String} {v : Value} (mem : s ∈ v.strings) :
    Holds v.json (jsonString s).toList := by
  match v with
  | .str s' =>
    obtain rfl := List.mem_singleton.1 (by simpa only [strings] using mem)
    exact List.infix_refl _
  | .list xs | .tuple xs =>
    obtain ⟨item, listed, found⟩ := holds_jsonItems (by simpa only [strings] using mem)
    rw [json]
    exact ((found.intercalate listed).append_left _).append_right _
  | .dict es =>
    obtain ⟨entry, listed, found⟩ := holds_jsonEntries (by simpa only [strings] using mem)
    rw [json]
    exact ((found.intercalate listed).append_left _).append_right _

theorem holds_jsonItems {s : String} {xs : List Value} (mem : s ∈ stringsOfItems xs) :
    ∃ item ∈ jsonItems xs, Holds item (jsonString s).toList := by
  match xs with
  | x :: r =>
    rw [jsonItems]
    obtain mem | mem := List.mem_append.1 (by simpa only [stringsOfItems] using mem)
    · exact ⟨_, by simp, holds_json mem⟩
    · obtain ⟨item, listed, found⟩ := holds_jsonItems mem
      exact ⟨item, by simp [listed], found⟩

theorem holds_jsonEntries {s : String} {es : List (String × Value)}
    (mem : s ∈ stringsOfEntries es) :
    ∃ entry ∈ jsonEntries es, Holds entry (jsonString s).toList := by
  match es with
  | (k, x) :: r =>
    rw [jsonEntries]
    simp only [stringsOfEntries, List.mem_cons, List.mem_append] at mem
    obtain rfl | mem | mem := mem
    · have key : Holds (jsonString s) (jsonString s).toList := List.infix_refl _
      exact ⟨_, List.mem_cons_self, (key.append_right _).append_right _⟩
    · exact ⟨_, List.mem_cons_self, (holds_json mem).append_left _⟩
    · obtain ⟨entry, listed, found⟩ := holds_jsonEntries mem
      exact ⟨entry, by simp [listed], found⟩

end

/-- The literal of a text in a value stands in the literal of the value. -/
theorem holds_literalText {s : String} {v : Value} (mem : s ∈ v.strings) :
    Holds (literalText v) (stringLiteral s).toList := by
  obtain ⟨before, after, same⟩ := holds_json mem
  rw [Holds, literalText, stringLiteral, toList_codeText, toList_codeText, ← same]
  exact ⟨before.flatMap codeChar, after.flatMap codeChar, by simp only [List.flatMap_append]⟩

/-- The next line character. -/
def nextLine : Char := '\u0085'

theorem isLineEnd_inert {c : Char} (inert : IsInert c) (ends : isLineEnd c = true) :
    c = nextLine := by
  obtain ⟨-, -, -, line, paragraph, shown⟩ := inert
  simp only [isLineEnd, Bool.or_eq_true, Bool.and_eq_true, decide_eq_true_eq, beq_iff_eq] at ends
  have code : c.toNat = 0x85 := by omega
  rw [← Char.ofNat_toNat c, code]
  rfl

theorem nextLine_escape (n : Nat) : nextLine ∉ '\\' :: 'u' :: hexDigits 4 n := by
  simp only [List.mem_cons]
  rintro (escape | escape | digit)
  · exact absurd escape (by decide)
  · exact absurd escape (by decide)
  · exact absurd (isNumberChar_hexDigits 4 _ _ digit) (by decide)

theorem nextLine_codeChar {c : Char} (mem : nextLine ∈ codeChar c) : c = nextLine := by
  rw [codeChar] at mem
  split at mem
  · exact absurd mem (nextLine_escape _)
  · exact (List.mem_singleton.1 mem).symm

theorem nextLine_jsonChar {c : Char} (mem : nextLine ∈ jsonChar c) : c = nextLine := by
  rw [jsonChar] at mem
  split_ifs at mem
  iterate 7 · exact absurd mem (by decide)
  · exact absurd mem (nextLine_escape _)
  · exact (List.mem_singleton.1 mem).symm

/-- A string literal holds a line end exactly if its text holds the next line character. -/
theorem stringLiteral_whole (s : String) :
    (∀ c ∈ (stringLiteral s).toList, isLineEnd c = false) ↔ nextLine ∉ s.toList := by
  have literal := toList_stringLiteral s
  constructor
  · intro whole mem
    have inside : nextLine ∈ (stringLiteral s).toList := by
      rw [literal]
      refine List.mem_cons_of_mem _ (List.mem_append_left _ (List.mem_flatMap.2 ⟨_, mem, ?_⟩))
      decide
    exact absurd (whole _ inside) (by decide)
  · intro free c mem
    by_contra ends
    have inert := isInert_codeText (shown_jsonString s) c mem
    obtain rfl := isLineEnd_inert inert (by simpa using ends)
    refine free ?_
    rw [literal] at mem
    simp only [List.mem_cons, List.mem_append, List.mem_flatMap, spelling] at mem
    obtain quote | ⟨d, found, e, json, code⟩ | quote | none := mem
    · exact absurd quote (by decide)
    · obtain rfl := nextLine_codeChar code
      obtain rfl := nextLine_jsonChar json
      exact found
    · exact absurd quote (by decide)
    · cases none

end Script

end Pagesmith
