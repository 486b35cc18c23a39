import Pagesmith.Format.File
import Pagesmith.Proofs.Job
import Pagesmith.Proofs.Text.Line

/-!
Lines of formatted text. Bringing a text into form changes which blank lines there are, and the blanks
at the ends of the others; no line that is not blank is lost, added or moved. A source whose lines have
no blanks to lose keeps all that are not blank as they are.
-/

namespace Pagesmith.Format
open Text

/-- The lines that are not blank. -/
def inked (ls : List (List Char)) : List (List Char) := ls.filter fun l => !isBlankLine l

section Passes

theorem inked_blank {l : List Char} (h : isBlankLine l = true) (ls : List (List Char)) :
    inked (l :: ls) = inked ls := by
  simp [inked, h]

theorem inked_other {l : List Char} (h : isBlankLine l = false) (ls : List (List Char)) :
    inked (l :: ls) = l :: inked ls := by
  simp [inked, h]

theorem inked_append (ls more : List (List Char)) : inked (ls ++ more) = inked ls ++ inked more :=
  List.filter_append ls more

theorem inked_self {ls : List (List Char)} (h : ∀ l ∈ ls, isBlankLine l = false) : inked ls = ls :=
  List.filter_eq_self.2 fun l mem => by simp [h l mem]

theorem inked_dropWhile (ls : List (List Char)) : inked (ls.dropWhile isBlankLine) = inked ls := by
  induction ls with
  | nil => rfl
  | cons l r ih =>
    rw [List.dropWhile_cons]
    cases h : isBlankLine l with
    | true => rw [if_pos rfl, ih, inked_blank h]
    | false => rw [if_neg (by simp)]

theorem inked_dropLastWhile (ls : List (List Char)) :
    inked (dropLastWhile isBlankLine ls) = inked ls := by
  rw [dropLastWhile, inked, List.filter_reverse]
  change (inked (ls.reverse.dropWhile isBlankLine)).reverse = _
  rw [inked_dropWhile, inked, List.filter_reverse, List.reverse_reverse, inked]

theorem inked_squeeze (limit room : Nat) (ls : List (List Char)) :
    inked (squeeze limit room ls) = inked ls := by
  induction ls generalizing room with
  | nil => cases room <;> rfl
  | cons l r ih =>
    cases room with
    | zero =>
      rw [squeeze]
      cases h : isBlankLine l with
      | true => rw [if_pos rfl, ih, inked_blank h]
      | false => rw [if_neg (by simp), inked_other h, inked_other h, ih]
    | succ room =>
      rw [squeeze]
      cases h : isBlankLine l with
      | true => rw [if_pos rfl, inked_blank h, inked_blank h, ih]
      | false => rw [if_neg (by simp), inked_other h, inked_other h, ih]

end Passes

section Line

variable {o : Options} {l : List Char}

theorem all_dropWhile {p q : Char → Bool} (weaker : ∀ c, p c = true → q c = true) (cs : List Char) :
    (cs.dropWhile p).all q = cs.all q := by
  induction cs with
  | nil => rfl
  | cons c r ih =>
    rw [List.dropWhile_cons]
    split
    · next h => rw [ih, List.all_cons, weaker c h, Bool.true_and]
    · rfl

theorem isBlankLine_untab (indent : Nat) (l : List Char) :
    isBlankLine (untab indent l) = isBlankLine l := by
  have tabs : ∀ c : Char, (c == '\t') = true → isBlank c = true := by
    intro c tab
    obtain rfl := eq_of_beq tab
    decide
  have spaces : (List.replicate (indent * (l.takeWhile (· == '\t')).length) ' ').all isBlank = true :=
    List.all_eq_true.2 fun c mem => by
      rw [List.eq_of_mem_replicate mem]
      decide
  rw [untab, isBlankLine, List.all_append, spaces, Bool.true_and, all_dropWhile tabs, isBlankLine]

theorem isBlankLine_line (o : Options) (l : List Char) : isBlankLine (line o l) = isBlankLine l := by
  rw [line]
  split
  · rw [isBlankLine, dropEndWhile, List.all_reverse, all_dropWhile fun _ h => h, List.all_reverse]
    exact isBlankLine_untab o.indent l
  · exact isBlankLine_untab o.indent l

theorem mem_line {c : Char} (h : c ∈ line o l) : c = ' ' ∨ c ∈ l := by
  have given : c ∈ untab o.indent l := by
    rw [line] at h
    split at h
    · exact List.mem_reverse.1 ((List.dropWhile_sublist _).mem (List.mem_reverse.1 h))
    · exact h
  obtain mem | mem := List.mem_append.1 given
  · exact .inl (List.eq_of_mem_replicate mem)
  · exact .inr ((List.dropWhile_sublist _).mem mem)

/-- A line without a tab at its start and a blank at its end. -/
structure IsTidy (l : List Char) : Prop where
  start : l.head? ≠ some '\t'
  ends : ∀ c ∈ l.getLast?, isBlank c = false

theorem isTidy_nil : IsTidy [] := ⟨by simp, by simp⟩

/-- A line without a tab at its start, and without a blank at its end where lines are trimmed, is in form. -/
theorem line_eq (start : l.head? ≠ some '\t')
    (ends : o.trimsLines = true → ∀ c ∈ l.getLast?, isBlank c = false) : line o l = l := by
  have untabbed : untab o.indent l = l := by
    cases l with
    | nil => rfl
    | cons c r =>
      have other : (c == '\t') = false := by simpa using start
      simp [untab, other]
  rw [line, untabbed]
  split
  · next trims =>
    rw [dropEndWhile]
    cases last : l.reverse with
    | nil => rw [List.reverse_eq_nil_iff.1 last]; rfl
    | cons c r =>
      have own : c ∈ l.getLast? := by
        rw [← List.head?_reverse, last]
        rfl
      rw [List.dropWhile_cons, if_neg (by simp [ends trims c own]), ← last, List.reverse_reverse]
  · rfl

/-- A tidy line is in form. -/
theorem IsTidy.line_eq (h : IsTidy l) : line o l = l := Format.line_eq h.start fun _ => h.ends

/-- A tidy line is blank only if nothing is on it. -/
theorem IsTidy.isBlankLine_eq (h : IsTidy l) : isBlankLine l = l.isEmpty := by
  cases last : l.getLast? with
  | none =>
    rw [List.getLast?_eq_none_iff.1 last]
    rfl
  | some c =>
    have mem := List.mem_of_getLast? last
    have shown : isBlankLine l = false :=
      List.all_eq_false.2 ⟨c, mem, by simp [h.ends c last]⟩
    rw [shown, List.isEmpty_eq_false_iff.2 (List.ne_nil_of_mem mem)]

theorem inked_map_line (o : Options) (ls : List (List Char)) :
    inked (ls.map (line o)) = (inked ls).map (line o) := by
  rw [inked, List.filter_map, inked]
  simp only [Function.comp_def, isBlankLine_line]

end Line

section Lines

/-- No character of the line ends a line. -/
def IsOneLine (l : List Char) : Prop := '\n' ∉ l ∧ '\r' ∉ l

theorem linesOf_other {c : Char} (h : c ≠ '\r') (r : List Char) :
    linesOf (c :: r) = if c == '\n' then [] :: linesOf r else match linesOf r with
      | [] => [[c]]
      | l :: ls => (c :: l) :: ls := by
  have same : (c == '\r') = false := by simpa using h
  rw [linesOf.eq_def]
  split
  · contradiction
  · next start =>
    cases start
    exact absurd rfl h
  · next start =>
    cases start
    exact if_congr (by rw [same, Bool.false_or]) rfl rfl

/-- Without carriage returns a line ends at a line feed. -/
theorem linesOf_eq {cs : List Char} (h : '\r' ∉ cs) : linesOf cs = pieces '\n' cs := by
  induction cs with
  | nil => rfl
  | cons c r ih =>
    simp only [List.mem_cons, not_or] at h
    obtain ⟨l, ls, found⟩ := List.exists_cons_of_ne_nil (pieces_ne_nil '\n' r)
    rw [linesOf_other (Ne.symm h.1), ih h.2, pieces, found]

/-- A line feed ends the last of the lines in front of it. -/
theorem linesOf_feed {s : List Char} (h : '\r' ∉ s) (r : List Char) :
    linesOf (s ++ '\n' :: r) = pieces '\n' s ++ linesOf r := by
  induction s with
  | nil => rfl
  | cons c s ih =>
    simp only [List.mem_cons, not_or] at h
    obtain ⟨l, ls, found⟩ := List.exists_cons_of_ne_nil (pieces_ne_nil '\n' s)
    rw [List.cons_append, linesOf_other (Ne.symm h.1), ih h.2, pieces, found]
    split <;> rfl

theorem linesOf_oneLine (cs : List Char) : ∀ l ∈ linesOf cs, IsOneLine l := by
  have empty : IsOneLine [] := ⟨List.not_mem_nil, List.not_mem_nil⟩
  have more {c : Char} (h : ¬ (c == '\r' || c == '\n') = true) {l : List Char} (line : IsOneLine l) :
      IsOneLine (c :: l) := by
    simp only [Bool.or_eq_true, beq_iff_eq, not_or] at h
    simp only [IsOneLine, List.mem_cons, not_or]
    exact ⟨⟨Ne.symm h.2, line.1⟩, Ne.symm h.1, line.2⟩
  fun_induction linesOf cs with
  | case1 => exact List.forall_mem_singleton.2 empty
  | case2 r ih => exact List.forall_mem_cons.2 ⟨empty, ih⟩
  | case3 c r _ _ ih => exact List.forall_mem_cons.2 ⟨empty, ih⟩
  | case4 c r _ other none ih => exact List.forall_mem_singleton.2 (more other empty)
  | case5 c r _ other l ls found ih =>
    rw [found] at ih
    obtain ⟨first, rest⟩ := List.forall_mem_cons.1 ih
    exact List.forall_mem_cons.2 ⟨more other first, rest⟩

end Lines

theorem inked_body (o : Options) (cs : List Char) :
    inked (body o cs) = (inked (linesOf cs)).map (line o) := by
  rw [body, inked_dropLastWhile, inked_squeeze, inked_dropWhile, inked_map_line]

theorem squeeze_sublist (limit room : Nat) (ls : List (List Char)) :
    List.Sublist (squeeze limit room ls) ls := by
  induction ls generalizing room with
  | nil => cases room <;> exact .slnil
  | cons l r ih =>
    cases room with
    | zero =>
      rw [squeeze]
      split
      · exact (ih 0).cons l
      · exact (ih limit).cons_cons l
    | succ room =>
      rw [squeeze]
      split
      · exact (ih room).cons_cons l
      · exact (ih limit).cons_cons l

theorem body_oneLine (o : Options) (cs : List Char) : ∀ l ∈ body o cs, IsOneLine l := by
  intro l mem
  have squeezed := (List.dropWhile_sublist _).mem (List.mem_reverse.1 mem)
  have kept := (squeeze_sublist _ _ _).mem (List.mem_reverse.1 squeezed)
  obtain ⟨given, there, rfl⟩ := List.mem_map.1 ((List.dropWhile_sublist _).mem kept)
  obtain ⟨feed, return_⟩ := linesOf_oneLine cs given there
  refine ⟨fun mem => ?_, fun mem => ?_⟩
  · exact (mem_line mem).elim (by decide) feed
  · exact (mem_line mem).elim (by decide) return_

/-- Lines with a line feed between them, and one behind the last if that is asked for. -/
def written (o : Options) (ls : List (List Char)) : List Char :=
  if ls = [] then [] else ['\n'].intercalate ls ++ if o.closesLastLine then ['\n'] else []

theorem toList_text (o : Options) (s : String) : (text o s).toList = written o (body o s.toList) := by
  rw [text, written]
  cases body o s.toList with
  | nil => rfl
  | cons l r => rw [String.toList_ofList, if_neg (List.cons_ne_nil l r)]

theorem returnFree_written (o : Options) {ls : List (List Char)} (oneLine : ∀ l ∈ ls, IsOneLine l) :
    '\r' ∉ written o ls := by
  intro mem
  rw [written] at mem
  split at mem
  · cases mem
  · obtain mem | mem := List.mem_append.1 mem
    · obtain same | ⟨l, there, mem⟩ := mem_joined mem
      · cases same
      · exact (oneLine l there).2 mem
    · split at mem <;> simp at mem

theorem returnFree_text (o : Options) (s : String) : '\r' ∉ (text o s).toList := by
  rw [toList_text]
  exact returnFree_written o (body_oneLine o s.toList)

theorem inked_written (o : Options) {ls : List (List Char)} (oneLine : ∀ l ∈ ls, IsOneLine l) :
    inked (linesOf (written o ls)) = inked ls := by
  rw [linesOf_eq (returnFree_written o oneLine), written]
  split
  · next empty =>
    rw [empty]
    rfl
  · next given =>
    have cut := pieces_intercalate given fun l mem => (oneLine l mem).1
    split
    · rw [pieces_append, cut, inked_append]
      exact List.append_nil _
    · rw [List.append_nil, cut]

/-- The lines of a formatted text that are not blank are those of the text, each in its form. -/
theorem inked_text (o : Options) (s : String) :
    inked (linesOf (text o s).toList) = (inked (linesOf s.toList)).map (line o) := by
  rw [toList_text, inked_written o (body_oneLine o s.toList), inked_body]

/-- A file with its content in form, as far as that can be done. -/
def formed (o : Options) (f : OutputFile) : OutputFile :=
  match content o f.kind.category f.content with
  | .ok s => { f with content := s }
  | .error _ => f

/-- A step of indentation that fits into memory can be made. -/
theorem checkStep_ok {o : Options} (small : o.indent < memoryLimit) : checkStep o = .ok () := by
  have limits : memoryLimit < countLimit := by decide
  have counts : ¬ ((countLimit : Int) ≤ o.indent || (o.indent : Int) < -(countLimit : Int)) = true := by
    simp only [Bool.or_eq_true, decide_eq_true_eq]
    omega
  rw [checkStep, checkCopies, if_neg counts, Int.toNat_natCast, Nat.one_mul, if_neg (by omega), if_neg (by omega)]

theorem file_ends (o : Options) (f : OutputFile) : (file o f).Ends (formed o f) := by
  rw [file, formed]
  cases content o f.kind.category f.content with
  | ok s => exact .pure _
  | error cause => exact .bind (.note _) (.pure _)

section Sources

variable {f : OutputFile} (source : f.kind.category = .source)
include source

theorem formed_source (o : Options) :
    (formed o f).content = text o f.content ∨ formed o f = f := by
  rw [formed, source]
  cases found : content o .source f.content with
  | error _ => exact .inr rfl
  | ok s =>
    rw [content] at found
    cases step : checkStep o with
    | error _ => rw [step] at found; cases found
    | ok _ =>
      rw [step] at found
      cases found
      exact .inl rfl

/-- The lines of a source that are not blank stay as they are if all lines are tidy. -/
theorem inked_formed (o : Options) (tidy : ∀ l ∈ linesOf f.content.toList, IsTidy l) :
    inked (linesOf (formed o f).content.toList) = inked (linesOf f.content.toList) := by
  obtain form | same := formed_source source o
  · rw [form, inked_text]
    refine (List.map_congr_left fun l mem => ?_).trans (List.map_id _)
    exact (tidy l (List.mem_of_mem_filter mem)).line_eq
  · rw [same]

theorem returnFree_formed (o : Options) (free : '\r' ∉ f.content.toList) :
    '\r' ∉ (formed o f).content.toList := by
  obtain form | same := formed_source source o
  · rw [form]
    exact returnFree_text o f.content
  · rwa [same]

end Sources

end Pagesmith.Format
