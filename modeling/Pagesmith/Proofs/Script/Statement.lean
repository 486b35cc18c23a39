import Pagesmith.Proofs.Text.Line
import Pagesmith.Proofs.Text.Name
import Pagesmith.Script.Statement

/-!
What indentation leaves of a text. Statements are cut into lines and put together again with line
feeds, so a piece that no line end cuts comes through every step, and no other line end is left.
-/

namespace Pagesmith.Script
open Text

variable {t : List Char}

theorem holds_indentBlock {s : String} (piece : Piece t) (n : Nat) (h : Holds s t) :
    Holds (indentBlock n s) t := by
  obtain ⟨l, mem, found⟩ := holds_lines piece h
  refine Holds.intercalate ?_ (List.mem_map_of_mem mem)
  split
  · exact found
  · exact found.append_left _

theorem feeds_spaces (n : Nat) : Feeds (indentation n) := by
  intro c mem
  rw [indentation, String.toList_ofList] at mem
  obtain ⟨-, rfl⟩ := List.mem_replicate.1 mem
  decide

theorem feeds_indentBlock (n : Nat) (s : String) : Feeds (indentBlock n s) := by
  refine Feeds.intercalate (by simp [Feeds]) fun l mem => ?_
  obtain ⟨l', found, rfl⟩ := List.mem_map.1 mem
  split
  · exact feeds_lines s _ found
  · exact (feeds_spaces n).append (feeds_lines s _ found)

theorem holds_stateHook {literal : String} (h : Holds literal t) (name : String) :
    Holds (stateHook name literal) t :=
  (h.append_left _).append_right _

theorem holds_arrowFunction {s : String} {statements : List String} (piece : Piece t)
    (h : Holds s t) (mem : s ∈ statements) (name params : String) :
    Holds (arrowFunction name params statements) t := by
  have body : Holds (unlines (statements.map (indentBlock 1))) t :=
    (holds_indentBlock piece 1 h).intercalate (List.mem_map_of_mem mem)
  rw [arrowFunction]
  refine Holds.append_left ?_ _
  split
  · next empty =>
    rw [Holds, eq_of_beq empty] at body
    exact absurd (List.infix_nil.1 body) piece.given
  · exact (body.append_left _).append_right _

theorem holds_fetchEffect {url : String} (h : Holds (stringLiteral url) t) (setter : String) :
    Holds (fetchEffect url setter) t := by
  have line : Holds ("  fetch(" ++ stringLiteral url ++ ")") t := (h.append_left _).append_right _
  exact line.intercalate (by simp)

/-- The blocks of a component: its sections, and the return of its markup. -/
def componentBlocks (sections : List (List String)) (markup : String) : List String :=
  ((sections.filter (!·.isEmpty)).map fun statements =>
    String.intercalate "\n\n" (statements.map (indentBlock 1))) ++
  [indentStep ++ "return (\n" ++
    (if markup == "" then indentation 2 ++ "null" else indentBlock 2 markup) ++ "\n" ++
    indentStep ++ ");"]

theorem functionComponent_eq (name : String) (sections : List (List String)) (markup : String) :
    functionComponent name sections markup = "const " ++ name ++ ": React.FC = () => \x7b\n" ++
      String.intercalate "\n\n" (componentBlocks sections markup) ++
      "\n\x7d;\n\nexport default " ++ name ++ ";\n" := rfl

theorem holds_component {block : String} {sections : List (List String)} {markup : String}
    (h : Holds block t) (mem : block ∈ componentBlocks sections markup) (name : String) :
    Holds (functionComponent name sections markup) t := by
  rw [functionComponent_eq]
  refine Holds.append_right (Holds.append_right (Holds.append_right ?_ _) _) _
  exact (h.intercalate mem).append_left _

/-- A piece of a statement stands in the component. -/
theorem holds_section {s : String} {statements : List String} {sections : List (List String)}
    (piece : Piece t) (h : Holds s t) (mem : s ∈ statements) (listed : statements ∈ sections)
    (name markup : String) : Holds (functionComponent name sections markup) t := by
  have block : Holds (String.intercalate "\n\n" (statements.map (indentBlock 1))) t :=
    (holds_indentBlock piece 1 h).intercalate (List.mem_map_of_mem mem)
  refine holds_component block (List.mem_append_left _ ?_) name
  exact List.mem_map.2 ⟨statements, List.mem_filter.2 ⟨listed, by cases mem <;> rfl⟩, rfl⟩

/-- A piece of the markup stands in the component. -/
theorem holds_markup {markup : String} (piece : Piece t) (h : Holds markup t)
    (name : String) (sections : List (List String)) :
    Holds (functionComponent name sections markup) t := by
  have given : (markup == "") = false := by
    refine beq_false_of_ne fun empty => piece.given ?_
    rw [Holds, empty] at h
    exact List.infix_nil.1 h
  have block := holds_indentBlock piece 2 h
  refine holds_component ?_ (List.mem_append_right _ (by rw [given]; simp; rfl)) name
  exact ((block.append_left _).append_right _).append_right _ |>.append_right _

theorem isUnbroken_name {name : String} (isName : IsName name) : IsUnbroken name := by
  intro c mem
  by_contra ends
  have letter := isName.chars c mem
  simp only [isNameChar, Bool.or_eq_true, beq_iff_eq] at letter
  obtain (alnum | rfl) | rfl := letter
  · have range := isAlphanum_range alnum
    simp only [isLineEnd, Bool.not_eq_false, Bool.or_eq_true, Bool.and_eq_true, decide_eq_true_eq,
      beq_iff_eq] at ends
    omega
  · exact ends rfl
  · exact ends rfl

theorem feeds_name {name : String} (isName : IsName name) : Feeds name := by
  intro c mem ends
  rw [isUnbroken_name isName c mem] at ends
  cases ends

/-- No line end of the statements and the markup is left in the component but line feeds. -/
theorem feeds_functionComponent {name : String} (isName : IsName name)
    (sections : List (List String)) (markup : String) :
    Feeds (functionComponent name sections markup) := by
  have name := feeds_name isName
  have gap : Feeds "\n\n" := by decide
  have blocks : ∀ b ∈ componentBlocks sections markup, Feeds b := by
    intro b mem
    obtain mem | mem := List.mem_append.1 mem
    · obtain ⟨statements, -, rfl⟩ := List.mem_map.1 mem
      refine Feeds.intercalate gap fun s mem => ?_
      obtain ⟨s', -, rfl⟩ := List.mem_map.1 mem
      exact feeds_indentBlock 1 s'
    · obtain rfl := List.mem_singleton.1 mem
      have returned : Feeds (if markup == "" then indentation 2 ++ "null"
          else indentBlock 2 markup) := by
        split
        · decide
        · exact feeds_indentBlock 2 markup
      exact ((Feeds.append (by decide) returned).append (by decide)).append (by decide)
        |>.append (by decide)
  rw [functionComponent_eq]
  exact ((((Feeds.append (by decide) name).append (by decide)).append
    (.intercalate gap blocks)).append (by decide)).append name |>.append (by decide)

end Pagesmith.Script
