import Pagesmith.Proofs.Script.Carried
import Pagesmith.Proofs.Script.Statement

/-!
The body of a function. Statements stand in it one below the other, each of their lines moved right by a step. That
is what comes of indentation as long as nothing but line feeds is taken for the end of a line; of all line ends only
the next line character gets into a statement, and each statement that holds one is cut there.
-/

namespace Pagesmith.Script
open Text

/-- Nothing in the text is taken for the end of a line but the next line character. -/
def IsTame (s : String) : Prop := ∀ c ∈ s.toList, isLineEnd c = true → c = nextLine

section Tame

variable {s s' : String}

theorem IsTame.append (h : IsTame s) (h' : IsTame s') : IsTame (s ++ s') := by
  rw [IsTame, String.toList_append, List.forall_mem_append]
  exact ⟨h, h'⟩

theorem isTame_unbroken (h : IsUnbroken s) : IsTame s := by
  intro c mem ends
  rw [h c mem] at ends
  cases ends

theorem isTame_stringLiteral (s : String) : IsTame (stringLiteral s) :=
  fun c mem => isLineEnd_inert (isInert_codeText (Value.shown_jsonString s) c mem)

theorem isTame_literalText (v : Value) : IsTame (literalText v) :=
  fun c mem => isLineEnd_inert (isInert_codeText (Value.shown_json v) c mem)

end Tame

/-- A statement ends in a semicolon or holds one, and its lines are not empty. In them nothing but the next line
character is taken for the end of a line. -/
structure IsStatement (s : String) : Prop where
  closed : ';' ∈ s.toList
  lines : ∃ ls, s = unlines ls ∧ ∀ l ∈ ls, l ≠ "" ∧ IsTame l

section Statements

variable {s t : String}

theorem isStatement_line (closed : ';' ∈ s.toList) (tame : IsTame s) : IsStatement s := by
  refine ⟨closed, [s], by simp [unlines], ?_⟩
  simp only [List.mem_singleton, forall_eq]
  refine ⟨?_, tame⟩
  rintro rfl
  cases closed

/-- A literal in the middle of a statement. -/
theorem isStatement_around {left right : String} (h : IsUnbroken left) (tame : IsTame s) (h' : IsUnbroken right)
    (closed : ';' ∈ right.toList) : IsStatement (left ++ s ++ right) := by
  refine isStatement_line ?_ (((isTame_unbroken h).append tame).append (isTame_unbroken h'))
  rw [String.toList_append]
  exact List.mem_append_right _ closed

/-- A statement under a line. -/
theorem IsStatement.under (h : IsStatement s) {l : String} (given : l ≠ "") (tame : IsTame l) :
    IsStatement (l ++ "\n" ++ s) := by
  obtain ⟨closed, ls, rfl, all⟩ := h
  refine ⟨?_, l :: ls, ?_, List.forall_mem_cons.2 ⟨⟨given, tame⟩, all⟩⟩
  · rw [String.toList_append]
    exact List.mem_append_right _ closed
  · cases ls with
    | nil => cases closed
    | cons l' r => rw [unlines, unlines, String.intercalate_cons_cons]

/-- The second text is the first one with each of its lines moved right by a step. -/
def MovedRight (s t : String) : Prop :=
  ∃ ls, s = unlines ls ∧ (∀ l ∈ ls, '\n' ∉ l.toList) ∧ t = unlines (ls.map (indentStep ++ ·))

theorem MovedRight.holds (h : MovedRight s t) {c : Char} (other : c ≠ '\n') (mem : c ∈ s.toList) : c ∈ t.toList := by
  obtain ⟨ls, rfl, -, rfl⟩ := h
  obtain ⟨l, there, inside⟩ := (mem_unlines other).1 mem
  refine (mem_unlines other).2 ⟨indentStep ++ l, List.mem_map_of_mem there, ?_⟩
  rw [String.toList_append]
  exact List.mem_append_right _ inside

theorem holds_moved {ss ts : List String} (h : List.Forall₂ MovedRight ss ts) {c : Char} (other : c ≠ '\n')
    (mem : ∃ s ∈ ss, c ∈ s.toList) : ∃ t ∈ ts, c ∈ t.toList := by
  induction h with
  | nil => simp at mem
  | cons moved _ ih =>
    simp only [List.exists_mem_cons_iff] at mem ⊢
    exact mem.imp (moved.holds other) ih

/-- A statement without the next line character is moved right as it is. -/
theorem IsStatement.moved (h : IsStatement s) (free : nextLine ∉ s.toList) : MovedRight s (indentBlock 1 s) := by
  obtain ⟨-, ls, rfl, all⟩ := h
  have whole : ∀ l ∈ ls, IsUnbroken l := by
    intro l mem c inside
    by_contra ends
    obtain rfl := (all l mem).2 c inside (by simpa using ends)
    exact free ((mem_unlines (by decide)).2 ⟨l, mem, inside⟩)
  have last : ls.getLast? ≠ some "" := fun same => (all "" (List.mem_of_getLast? same)).1 rfl
  refine ⟨ls, rfl, fun l mem => (whole l mem).feed_notMem, ?_⟩
  rw [indentBlock, lines_unlines whole last]
  refine congrArg unlines (List.map_congr_left fun l mem => ?_)
  have given : (l == "") = false := by simpa using (all l mem).1
  rw [given]
  rfl

/-- The text of a function whose body has these parts, one below the other. -/
def functionText (name : String) (parts : List String) : String :=
  "const " ++ name ++ " = () => \x7b\n" ++ unlines parts ++ "\n\x7d;"

/-- The code is a function of this name whose body is these statements, each moved right by a step. -/
def Says (code name : String) (statements : List String) : Prop :=
  ∃ parts, code = functionText name parts ∧ List.Forall₂ MovedRight statements parts

variable {statements : List String} (given : statements ≠ []) (all : ∀ s ∈ statements, IsStatement s)
include given all

theorem arrowFunction_eq (name : String) :
    arrowFunction name "" statements = functionText name (statements.map (indentBlock 1)) := by
  obtain ⟨s, r, rfl⟩ := List.exists_cons_of_ne_nil given
  have semicolon : Piece [';'] := ⟨by simp, forall_chars (by decide)⟩
  have inside : Holds s [';'] := (List.singleton_infix_iff _ _).2 (all s List.mem_cons_self).closed
  have body : Holds (unlines ((s :: r).map (indentBlock 1))) [';'] :=
    (holds_indentBlock semicolon 1 inside).intercalate List.mem_cons_self
  have shown : (unlines ((s :: r).map (indentBlock 1)) == "") = false := by
    refine beq_false_of_ne fun empty => ?_
    rw [Holds, empty] at body
    exact absurd (List.infix_nil.1 body) (by simp)
  rw [arrowFunction, functionText]
  simp only [shown, String.append_assoc]
  rfl

/-- A function says its statements exactly if none of them holds the next line character. -/
theorem arrowFunction_says_iff (name : String) :
    Says (arrowFunction name "" statements) name statements ↔ ∀ s ∈ statements, nextLine ∉ s.toList := by
  rw [arrowFunction_eq given all]
  constructor
  · rintro ⟨parts, same, moved⟩ s mem inside
    have body : unlines (statements.map (indentBlock 1)) = unlines parts := by
      simpa [functionText, String.append_assoc] using same
    -- Whatever is taken for the end of a line in indented text is a line feed.
    have feeds : Feeds (unlines (statements.map (indentBlock 1))) := by
      refine Feeds.intercalate (by decide) fun t mem => ?_
      obtain ⟨s, -, rfl⟩ := List.mem_map.1 mem
      exact feeds_indentBlock 1 s
    have carried : nextLine ∈ (unlines parts).toList :=
      (mem_unlines (by decide)).2 (holds_moved moved (by decide) ⟨s, mem, inside⟩)
    rw [← body] at carried
    exact absurd (feeds _ carried (by decide)) (by decide)
  · intro free
    refine ⟨_, rfl, ?_⟩
    rw [List.forall₂_map_right_iff]
    exact List.forall₂_same.2 fun s mem => (all s mem).moved (free s mem)

end Statements

end Pagesmith.Script
