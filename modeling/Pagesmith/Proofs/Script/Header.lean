import Pagesmith.Proofs.Script.Import
import Pagesmith.Proofs.Script.Statement

/-!
The import lines of a whole text: those of its lines that start with the word for imports. Written
lines are found again between blank lines, and a component has no line that could be taken for one,
since all that is given to it is moved right.
-/

namespace Pagesmith.Script
open Text

/-- The lines of a text that import something. -/
def importTexts (text : String) : List (List Char) :=
  (pieces '\n' text.toList).filter ("import".toList.isPrefixOf ·)

/-- The imports of a text, if each of them can be read. -/
def readImports (text : String) : Option (List ImportLine) :=
  (importTexts text).mapM readImport

theorem importTexts_feed (s t : String) :
    importTexts (s ++ "\n" ++ t) = importTexts s ++ importTexts t := by
  have text : (s ++ "\n" ++ t).toList = s.toList ++ '\n' :: t.toList := by simp
  rw [importTexts, text, pieces_append, List.filter_append]
  rfl

theorem importTexts_blankLine (s t : String) :
    importTexts (s ++ "\n\n" ++ t) = importTexts s ++ importTexts t := by
  have blank : s ++ "\n\n" ++ t = s ++ "\n" ++ ("" ++ "\n" ++ t) := by
    rw [String.append_assoc, String.append_assoc]
    rfl
  rw [blank, importTexts_feed, importTexts_feed]
  rfl

/-- Texts put together so that no line of one runs into the next. -/
theorem importTexts_intercalate {sep : String}
    (apart : ∀ s t, importTexts (s ++ sep ++ t) = importTexts s ++ importTexts t)
    (texts : List String) :
    importTexts (String.intercalate sep texts) = texts.flatMap importTexts :=
  flatMap_intercalate rfl apart texts

theorem importTexts_unlines (texts : List String) :
    importTexts (unlines texts) = texts.flatMap importTexts :=
  importTexts_intercalate importTexts_feed texts

/-- A text of one line. -/
theorem importTexts_line {s : String} (whole : '\n' ∉ s.toList) :
    importTexts s = if "import".toList.isPrefixOf s.toList then [s.toList] else [] := by
  rw [importTexts, pieces_whole whole]
  simp only [List.filter_cons, List.filter_nil]

/-- A text of one line that starts in another way. -/
theorem importTexts_other {s : String} (whole : '\n' ∉ s.toList) {c : Char} (first : HasHead c s)
    (other : c ≠ 'i') : importTexts s = [] := by
  have differs : "import".toList.isPrefixOf s.toList = false := by
    obtain ⟨r, text⟩ := first.cons
    rw [text]
    exact Bool.and_eq_false_imp.2 fun same => absurd (eq_of_beq same).symm other
  rw [importTexts_line whole, differs]
  rfl

theorem whole_name {name : String} (h : IsName name) : '\n' ∉ name.toList :=
  fun mem => absurd (h.chars _ mem) (by decide)

theorem whole_stringLiteral (s : String) : '\n' ∉ (stringLiteral s).toList := by
  intro mem
  obtain ⟨-, -, -, -, -, shown⟩ := isInert_codeText (Value.shown_jsonString s) _ mem
  exact absurd shown (by decide)

theorem importTexts_importLine {main : Option String} (isName : ∀ d ∈ main, IsName d)
    {named : List (String × String)} (names : ∀ b ∈ named, NamesOnly b) (source : String) :
    importTexts (importLine source main named) = [(importLine source main named).toList] := by
  have clause : '\n' ∉ (clauseText main named).toList := fun mem =>
    absurd (clauseOnly_clauseText isName names _ mem) (by decide)
  have literal := whole_stringLiteral source
  rw [importLine_eq source (given_of_names isName)]
  rw [importTexts_line (by simp [clause, literal]), if_pos (by simp)]

theorem hasHead_indentation (n : Nat) : HasHead ' ' (indentation (n + 1)) := by
  rw [HasHead, indentation, String.toList_ofList, Nat.mul_add]
  rfl

/-- All lines of the text have this property. -/
def AllLines (P : List Char → Prop) (s : String) : Prop := ∀ l ∈ pieces '\n' s.toList, P l

namespace AllLines

variable {P Q : List Char → Prop} {s t : String}

theorem mono (h : AllLines P s) (weaker : ∀ l, P l → Q l) : AllLines Q s :=
  fun l mem => weaker l (h l mem)

theorem line (whole : '\n' ∉ s.toList) (own : P s.toList) : AllLines P s := by
  rwa [AllLines, pieces_whole whole, List.forall_mem_singleton]

theorem feed (h : AllLines P s) (h' : AllLines P t) : AllLines P (s ++ "\n" ++ t) := by
  have text : (s ++ "\n" ++ t).toList = s.toList ++ '\n' :: t.toList := by simp
  rw [AllLines, text, pieces_append]
  exact List.forall_mem_append.2 ⟨h, h'⟩

variable (empty : P [])
include empty

theorem blankLine (h : AllLines P s) (h' : AllLines P t) : AllLines P (s ++ "\n\n" ++ t) := by
  have blank : s ++ "\n\n" ++ t = s ++ "\n" ++ ("" ++ "\n" ++ t) := by
    rw [String.append_assoc, String.append_assoc]
    rfl
  have none : AllLines P "" := line (by simp) empty
  rw [blank]
  exact h.feed (none.feed h')

theorem intercalate {sep : String}
    (apart : ∀ s t, AllLines P s → AllLines P t → AllLines P (s ++ sep ++ t)) {texts : List String}
    (h : ∀ t ∈ texts, AllLines P t) : AllLines P (String.intercalate sep texts) := by
  induction texts with
  | nil => exact line (by simp) empty
  | cons t r ih =>
    obtain ⟨first, rest⟩ := List.forall_mem_cons.1 h
    cases r with
    | nil => simpa using first
    | cons u r =>
      rw [String.intercalate_cons_cons]
      exact apart _ _ first (ih rest)

theorem unlines {texts : List String} (h : ∀ t ∈ texts, AllLines P t) : AllLines P (unlines texts) :=
  intercalate empty (fun _ _ => feed) h

end AllLines

/-- The line is empty or moved right. -/
def IsMoved (l : List Char) : Prop := l = [] ∨ l.head? = some ' '

theorem isMoved_nil : IsMoved [] := .inl rfl

/-- What is moved right imports nothing. -/
theorem importTexts_moved {s : String} (h : AllLines IsMoved s) : importTexts s = [] := by
  refine List.filter_eq_nil_iff.2 fun l mem => ?_
  obtain rfl | start := h l mem
  · decide
  · obtain ⟨r, rfl⟩ := List.head?_eq_some_iff.1 start
    simp

theorem moved_indentBlock (n : Nat) (s : String) : AllLines IsMoved (indentBlock (n + 1) s) := by
  refine .unlines isMoved_nil (List.forall_mem_map.2 fun l' found => ?_)
  obtain ⟨cs, listed, rfl⟩ := List.mem_map.1 found
  have whole : '\n' ∉ cs := fun mem => absurd (splitLines_whole _ cs listed _ mem) (by decide)
  split
  · next empty => exact .line (by simpa using whole) (.inl (by simpa using empty))
  · exact .line (by simp [indentation, whole]) (.inr ((hasHead_indentation n).append _))

/-- The statements and the markup of a component are moved right. -/
theorem moved_componentBlocks (sections : List (List String)) (markup : String) :
    AllLines IsMoved (String.intercalate "\n\n" (componentBlocks sections markup)) := by
  have apart (s t : String) (h : AllLines IsMoved s) (h' : AllLines IsMoved t) := h.blankLine isMoved_nil h'
  refine .intercalate isMoved_nil apart fun block mem => ?_
  obtain mem | mem := List.mem_append.1 mem
  · obtain ⟨statements, -, rfl⟩ := List.mem_map.1 mem
    exact .intercalate isMoved_nil apart (List.forall_mem_map.2 fun s _ => moved_indentBlock 0 s)
  · obtain rfl := List.mem_singleton.1 mem
    have returned (text : String) : indentStep ++ "return (\n" ++ text ++ "\n" ++ indentStep ++ ");" =
        unlines ["  return (", text, "  );"] := by
      rw [← String.toList_inj]
      simp [unlines, indentStep, String.intercalate_cons_cons]
    have inside : AllLines IsMoved (if markup == "" then indentation 2 ++ "null" else indentBlock 2 markup) := by
      split
      · exact .line (by decide) (.inr (by decide))
      · exact moved_indentBlock 1 markup
    rw [returned]
    refine .unlines isMoved_nil ?_
    simp only [List.forall_mem_cons]
    exact ⟨.line (by decide) (.inr (by decide)), inside, .line (by decide) (.inr (by decide)), by simp⟩

theorem functionComponent_lines (name : String) (sections : List (List String)) (markup : String) :
    functionComponent name sections markup = unlines
      ["const " ++ name ++ ": React.FC = () => \x7b",
        String.intercalate "\n\n" (componentBlocks sections markup), "\x7d;", "",
        "export default " ++ name ++ ";", ""] := by
  rw [functionComponent_eq, ← String.toList_inj]
  simp [unlines, String.intercalate_cons_cons]

/-- A component imports nothing, whatever its statements and its markup say. -/
theorem importTexts_functionComponent {name : String} (isName : IsName name)
    (sections : List (List String)) (markup : String) :
    importTexts (functionComponent name sections markup) = [] := by
  have whole := whole_name isName
  have constant : HasHead 'c' "const " := rfl
  have exported : HasHead 'e' "export default " := rfl
  have first : importTexts ("const " ++ name ++ ": React.FC = () => \x7b") = [] :=
    importTexts_other (by simp [whole]) ((constant.append _).append _) (by decide)
  have last : importTexts ("export default " ++ name ++ ";") = [] :=
    importTexts_other (by simp [whole]) ((exported.append _).append _) (by decide)
  have body := importTexts_moved (moved_componentBlocks sections markup)
  rw [functionComponent_lines, importTexts_unlines]
  simp only [List.flatMap_cons, first, last, body]
  decide

end Pagesmith.Script
