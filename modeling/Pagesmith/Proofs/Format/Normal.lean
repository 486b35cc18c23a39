import Pagesmith.Proofs.Format.Lines
import Mathlib.Data.List.DropRight
import Mathlib.Data.List.Forall2

/-!
The form of formatted text. A text in form has tidy lines, begins and ends with a line that is not blank,
has few blank lines in a row and is closed as asked for. Formatting brings every text into form and leaves
exactly the texts in form as they are; it keeps the lines that are not blank and shortens the gaps between
them.
-/

namespace Pagesmith.Format
open Text

section Spaced

/-- Blank lines only. -/
def IsGap (run : List (List Char)) : Prop := ∀ l ∈ run, isBlankLine l = true

/-- No more than `limit` blank lines follow each other, and no more than `room` stand in front. -/
inductive Spaced (limit : Nat) : (room : Nat) → List (List Char) → Prop where
  | nil {room : Nat} : Spaced limit room []
  | shown {room : Nat} {l : List Char} {r : List (List Char)} :
      isBlankLine l = false → Spaced limit limit r → Spaced limit room (l :: r)
  | blank {room : Nat} {l : List Char} {r : List (List Char)} :
      isBlankLine l = true → Spaced limit room r → Spaced limit (room + 1) (l :: r)

variable {limit room : Nat} {ls : List (List Char)} {l : List Char} {r : List (List Char)}

theorem squeeze_shown (h : isBlankLine l = false) :
    squeeze limit room (l :: r) = l :: squeeze limit limit r := by
  cases room <;> simp [squeeze, h]

theorem squeeze_blank (h : isBlankLine l = true) :
    squeeze limit (room + 1) (l :: r) = l :: squeeze limit room r := by
  simp [squeeze, h]

theorem squeeze_surplus (h : isBlankLine l = true) :
    squeeze limit 0 (l :: r) = squeeze limit 0 r := by
  simp [squeeze, h]

theorem spaced_squeeze (limit room : Nat) (ls : List (List Char)) :
    Spaced limit room (squeeze limit room ls) := by
  induction ls generalizing room with
  | nil => cases room <;> exact .nil
  | cons l r ih =>
    cases h : isBlankLine l with
    | false =>
      rw [squeeze_shown h]
      exact .shown h (ih limit)
    | true =>
      cases room with
      | zero =>
        rw [squeeze_surplus h]
        exact ih 0
      | succ room =>
        rw [squeeze_blank h]
        exact .blank h (ih room)

theorem Spaced.squeeze_eq (h : Spaced limit room ls) : squeeze limit room ls = ls := by
  induction h with
  | @nil room => cases room <;> rfl
  | shown line _ ih => rw [squeeze_shown line, ih]
  | blank line _ ih => rw [squeeze_blank line, ih]

theorem Spaced.gap_first (h : Spaced limit room ls) {run : List (List Char)} (blank : IsGap run)
    (start : run <+: ls) : run.length ≤ room := by
  induction h generalizing run with
  | nil => simp [List.prefix_nil.1 start]
  | shown line _ _ =>
    cases run with
    | nil => exact Nat.zero_le _
    | cons l' run =>
      obtain ⟨rfl, -⟩ := List.cons_prefix_cons.1 start
      rw [blank l' List.mem_cons_self] at line
      cases line
  | blank _ _ ih =>
    cases run with
    | nil => exact Nat.zero_le _
    | cons l' run =>
      obtain ⟨rfl, later⟩ := List.cons_prefix_cons.1 start
      exact Nat.succ_le_succ (ih (fun l mem => blank l (List.mem_cons_of_mem _ mem)) later)

theorem Spaced.gap_inside (h : Spaced limit room ls) (fits : room ≤ limit) {run : List (List Char)}
    (blank : IsGap run) (inside : run <:+: ls) : run.length ≤ limit := by
  induction h with
  | nil => simp [List.infix_nil.1 inside]
  | shown line rest ih =>
    obtain start | later := List.infix_cons_iff.1 inside
    · exact ((Spaced.shown line rest).gap_first blank start).trans fits
    · exact ih le_rfl later
  | blank line rest ih =>
    obtain start | later := List.infix_cons_iff.1 inside
    · exact ((Spaced.blank line rest).gap_first blank start).trans fits
    · exact ih (by omega) later

theorem spaced_of_gaps (first : ∀ run, IsGap run → run <+: ls → run.length ≤ room)
    (all : ∀ run, IsGap run → run <:+: ls → run.length ≤ limit) : Spaced limit room ls := by
  induction ls generalizing room with
  | nil => exact .nil
  | cons l r ih =>
    have later (run : List (List Char)) (blank : IsGap run) (inside : run <:+: r) : run.length ≤ limit :=
      all run blank (List.infix_cons inside)
    cases h : isBlankLine l with
    | false => exact .shown h (ih (fun run blank start => later run blank start.isInfix) later)
    | true =>
      have one : 1 ≤ room := first [l] (by simpa [IsGap] using h) ⟨r, rfl⟩
      obtain ⟨room, rfl⟩ := Nat.exists_eq_add_of_le' one
      refine .blank h (ih (fun run blank start => ?_) later)
      have more := first (l :: run) (List.forall_mem_cons.2 ⟨h, blank⟩) (List.cons_prefix_cons.2 ⟨rfl, start⟩)
      exact Nat.le_of_succ_le_succ more

end Spaced

section Rows

/-- The lines of a text. What follows the last line end is a line only if there is something. -/
def rows (cs : List Char) : List (List Char) :=
  if (linesOf cs).getLast? = some [] then (linesOf cs).dropLast else linesOf cs

theorem linesOf_rows (cs : List Char) : ∃ more, (more = [] ∨ more = [[]]) ∧ linesOf cs = rows cs ++ more := by
  rw [rows]
  split
  · next last => exact ⟨[[]], .inr rfl, (List.dropLast_append_getLast? [] last).symm⟩
  · exact ⟨[], .inl rfl, (List.append_nil _).symm⟩

theorem isGap_rest {more : List (List Char)} (h : more = [] ∨ more = [[]]) : IsGap more := by
  obtain rfl | rfl := h <;> simp [IsGap, isBlankLine]

/-- A text is in form. -/
structure InForm (o : Options) (s : String) : Prop where
  returnFree : '\r' ∉ s.toList
  untabbed : ∀ l ∈ rows s.toList, l.head? ≠ some '\t'
  trimmed : o.trimsLines = true → ∀ l ∈ rows s.toList, ∀ c ∈ l.getLast?, isBlank c = false
  first : ∀ l ∈ (rows s.toList).head?, isBlankLine l = false
  last : ∀ l ∈ (rows s.toList).getLast?, isBlankLine l = false
  gaps : ∀ run, IsGap run → run <:+: rows s.toList → run.length ≤ o.blankLines
  closed : s ≠ "" → if o.closesLastLine = true then ∃ cs c, s.toList = cs ++ [c, '\n'] ∧ c ≠ '\n'
    else s.toList.getLast? ≠ some '\n'

variable {o : Options} {ls : List (List Char)}

/-- Lines that are written are read back, if the last of them is not empty. -/
theorem rows_written (o : Options) (oneLine : ∀ l ∈ ls, IsOneLine l) (last : ls.getLast? ≠ some []) :
    rows (written o ls) = ls := by
  have cut : linesOf (written o ls) = pieces '\n' (written o ls) := linesOf_eq (returnFree_written o oneLine)
  rw [rows, cut, written]
  split
  · next none => simp [none, pieces]
  · next given =>
    have parts := pieces_intercalate given fun l mem => (oneLine l mem).1
    split
    · rw [pieces_append, parts]
      simp [pieces]
    · rw [List.append_nil, parts, if_neg last]

theorem pieces_last {c : Char} {cs : List Char} (given : cs ≠ []) (other : cs.getLast? ≠ some c) :
    (pieces c cs).getLast? ≠ some [] := by
  induction cs with
  | nil => contradiction
  | cons d r ih =>
    obtain ⟨p, ps, found⟩ := List.exists_cons_of_ne_nil (pieces_ne_nil c r)
    rw [pieces, found]
    rw [found] at ih
    cases r with
    | nil =>
      have apart : (d == c) = false := by simpa using other
      obtain ⟨rfl, rfl⟩ : p = [] ∧ ps = [] := by simpa [pieces] using found.symm
      simp [apart]
    | cons e r =>
      have later := ih (by simp) (by simpa using other)
      split
      · simpa using later
      · cases ps with
        | nil => simp
        | cons q qs => simpa using later

/-- A text in form is written by its lines. -/
theorem InForm.eq_written {s : String} (h : InForm o s) : s.toList = written o (rows s.toList) := by
  by_cases empty : s = ""
  · subst empty
    rfl
  · have closed := h.closed empty
    rw [rows, linesOf_eq h.returnFree, written]
    split at closed
    · next closes =>
      obtain ⟨cs, c, text, -⟩ := closed
      have split : pieces '\n' s.toList = pieces '\n' (cs ++ [c]) ++ [[]] := by
        rw [text, List.append_cons, pieces_append]
        rfl
      rw [split, List.getLast?_concat, if_pos rfl, List.dropLast_concat, if_neg (pieces_ne_nil _ _), if_pos closes,
        intercalate_pieces, text]
      simp
    · next open_ =>
      have given : s.toList ≠ [] := fun none => empty (String.toList_inj.1 none)
      rw [if_neg (pieces_last given closed), if_neg (pieces_ne_nil _ _), intercalate_pieces, if_neg open_,
        List.append_nil]

end Rows

section Arranged

variable {o : Options} {ls more : List (List Char)}

theorem squeeze_append_gap (limit room : Nat) (ls : List (List Char)) (blank : IsGap more) :
    ∃ left, IsGap left ∧ squeeze limit room (ls ++ more) = squeeze limit room ls ++ left := by
  induction ls generalizing room with
  | nil =>
    refine ⟨squeeze limit room more, fun l mem => blank l ((squeeze_sublist _ _ _).mem mem), ?_⟩
    cases room <;> rfl
  | cons l r ih =>
    cases h : isBlankLine l with
    | false =>
      obtain ⟨left, gap, same⟩ := ih limit
      exact ⟨left, gap, by rw [List.cons_append, squeeze_shown h, squeeze_shown h, same]; rfl⟩
    | true =>
      cases room with
      | zero =>
        obtain ⟨left, gap, same⟩ := ih 0
        exact ⟨left, gap, by rw [List.cons_append, squeeze_surplus h, squeeze_surplus h, same]⟩
      | succ room =>
        obtain ⟨left, gap, same⟩ := ih room
        exact ⟨left, gap, by rw [List.cons_append, squeeze_blank h, squeeze_blank h, same]; rfl⟩

theorem dropLastWhile_append_gap (ls : List (List Char)) (blank : IsGap more) :
    dropLastWhile isBlankLine (ls ++ more) = dropLastWhile isBlankLine ls := by
  rw [dropLastWhile, List.reverse_append,
    List.dropWhile_append_of_pos fun l mem => blank l (List.mem_reverse.1 mem), ← dropLastWhile]

theorem body_eq {cs : List Char} (lines : linesOf cs = ls ++ more) (blank : IsGap more)
    (form : ∀ l ∈ ls ++ more, line o l = l) (first : ∀ l ∈ ls.head?, isBlankLine l = false)
    (last : ∀ l ∈ ls.getLast?, isBlankLine l = false) (spaced : Spaced o.blankLines o.blankLines ls) :
    body o cs = ls := by
  have same : (linesOf cs).map (line o) = ls ++ more := by
    rw [lines, List.map_congr_left form, List.map_id']
  obtain ⟨left, gap, start⟩ : ∃ left, IsGap left ∧ (ls ++ more).dropWhile isBlankLine = ls ++ left := by
    cases ls with
    | nil => exact ⟨[], by simp [IsGap], List.dropWhile_eq_nil_iff.2 blank⟩
    | cons l r => exact ⟨more, blank, by simp [first l rfl]⟩
  obtain ⟨left, gap, squeezed⟩ := squeeze_append_gap o.blankLines o.blankLines ls gap
  have kept : dropLastWhile isBlankLine ls = ls :=
    List.rdropWhile_eq_self_iff.2 fun given => by simp [last _ (List.getLast?_eq_getLast_of_ne_nil given)]
  rw [body, same, start, squeezed, spaced.squeeze_eq, dropLastWhile_append_gap ls gap, kept]

/-- A text in form is left as it is. -/
theorem InForm.text_eq {s : String} (h : InForm o s) : text o s = s := by
  obtain ⟨more, blank, lines⟩ := linesOf_rows s.toList
  have form (l : List Char) (mem : l ∈ rows s.toList ++ more) : line o l = l := by
    obtain mem | mem := List.mem_append.1 mem
    · exact line_eq (h.untabbed l mem) fun trims => h.trimmed trims l mem
    · obtain rfl | rfl := blank
      · cases mem
      · obtain rfl := List.mem_singleton.1 mem
        exact line_eq (by simp) (by simp)
  have spaced : Spaced o.blankLines o.blankLines (rows s.toList) :=
    spaced_of_gaps (fun run blank start => h.gaps run blank start.isInfix) h.gaps
  rw [← String.toList_inj, toList_text, body_eq lines (isGap_rest blank) form h.first h.last spaced, ← h.eq_written]

theorem head?_dropWhile_tab (l : List Char) : (l.dropWhile (· == '\t')).head? ≠ some '\t' := by
  have stop := List.head?_dropWhile_not (· == '\t') l
  cases first : (l.dropWhile (· == '\t')).head? with
  | none => simp
  | some c =>
    rw [first] at stop
    simpa using stop

theorem head?_line (o : Options) (l : List Char) : (line o l).head? ≠ some '\t' := by
  have start : (untab o.indent l).head? ≠ some '\t' := by
    rw [untab, List.head?_append, List.head?_replicate]
    split
    · exact head?_dropWhile_tab l
    · simp
  rw [line]
  split
  · have part : dropEndWhile isBlank (untab o.indent l) <+: untab o.indent l := List.rdropWhile_prefix _ _
    cases cut : dropEndWhile isBlank (untab o.indent l) with
    | nil => simp
    | cons c r =>
      rw [cut] at part
      obtain ⟨rest, same⟩ := part
      rwa [← same] at start
  · exact start

theorem getLast?_line (trims : o.trimsLines = true) (l : List Char) :
    ∀ c ∈ (line o l).getLast?, isBlank c = false := by
  intro c last
  rw [line, if_pos trims] at last
  have given : dropEndWhile isBlank (untab o.indent l) ≠ [] := by
    intro none
    rw [none] at last
    cases last
  have stop := List.rdropWhile_last_not isBlank _ given
  rw [Option.mem_def, List.getLast?_eq_getLast_of_ne_nil given] at last
  obtain rfl := Option.some.inj last
  exact eq_false_of_ne_true stop

theorem body_starts (o : Options) (cs : List Char) : body o cs <+:
    squeeze o.blankLines o.blankLines (((linesOf cs).map (line o)).dropWhile isBlankLine) :=
  List.rdropWhile_prefix _ _

theorem body_first (o : Options) (cs : List Char) : ∀ l ∈ (body o cs).head?, isBlankLine l = false := by
  intro l first
  have kept := body_starts o cs
  have stop := List.head?_dropWhile_not isBlankLine ((linesOf cs).map (line o))
  cases given : ((linesOf cs).map (line o)).dropWhile isBlankLine with
  | nil =>
    rw [given, squeeze, List.prefix_nil] at kept
    rw [kept] at first
    cases first
  | cons l' r =>
    rw [given] at stop kept
    have shown : isBlankLine l' = false := by simpa using stop
    rw [squeeze_shown shown] at kept
    obtain ⟨rest, same⟩ := kept
    cases start : body o cs with
    | nil =>
      rw [start] at first
      cases first
    | cons l'' r' =>
      rw [start] at first same
      obtain rfl := Option.some.inj first
      rwa [(List.cons.inj same).1]

theorem body_last (o : Options) (cs : List Char) : ∀ l ∈ (body o cs).getLast?, isBlankLine l = false := by
  intro l last
  have given : body o cs ≠ [] := by
    intro none
    rw [none] at last
    cases last
  have stop := List.rdropWhile_last_not isBlankLine _ given
  rw [Option.mem_def, List.getLast?_eq_getLast_of_ne_nil given] at last
  obtain rfl := Option.some.inj last
  exact eq_false_of_ne_true stop

theorem mem_body {cs l : List Char} (mem : l ∈ body o cs) : ∃ l', l = line o l' := by
  have kept := (squeeze_sublist _ _ _).mem ((body_starts o cs).mem mem)
  obtain ⟨l', -, same⟩ := List.mem_map.1 ((List.dropWhile_sublist _).mem kept)
  exact ⟨l', same.symm⟩

/-- Lines put together end in the last character of the last line, if it has one. -/
theorem intercalate_ends (given : ls ≠ []) (feedFree : ∀ l ∈ ls, '\n' ∉ l) (last : ls.getLast? ≠ some []) :
    ∃ cs c, ['\n'].intercalate ls = cs ++ [c] ∧ c ≠ '\n' := by
  have parts := pieces_intercalate given feedFree
  cases reversed : (['\n'].intercalate ls).reverse with
  | nil =>
    rw [List.reverse_eq_nil_iff.1 reversed] at parts
    exact absurd (congrArg List.getLast? parts.symm) last
  | cons c r =>
    have text : ['\n'].intercalate ls = r.reverse ++ [c] := by
      rw [← List.reverse_cons, ← reversed, List.reverse_reverse]
    refine ⟨r.reverse, c, text, ?_⟩
    rintro rfl
    rw [text, pieces_append] at parts
    exact last (by rw [← parts]; simp [pieces])

theorem written_closed (given : written o ls ≠ []) (feedFree : ∀ l ∈ ls, '\n' ∉ l)
    (last : ls.getLast? ≠ some []) :
    if o.closesLastLine = true then ∃ cs c, written o ls = cs ++ [c, '\n'] ∧ c ≠ '\n'
    else (written o ls).getLast? ≠ some '\n' := by
  have some : ls ≠ [] := by
    rintro rfl
    exact given rfl
  obtain ⟨cs, c, text, other⟩ := intercalate_ends some feedFree last
  rw [written, if_neg some, text]
  split
  · exact ⟨cs, c, by simp, other⟩
  · simpa using other

theorem body_last_ne (o : Options) (cs : List Char) : (body o cs).getLast? ≠ some [] :=
  fun empty => absurd (body_last o cs _ empty) (by decide)

theorem rows_text (o : Options) (s : String) : rows (text o s).toList = body o s.toList := by
  rw [toList_text, rows_written o (body_oneLine o s.toList) (body_last_ne o s.toList)]

/-- Formatting brings every text into form. -/
theorem inForm_text (o : Options) (s : String) : InForm o (text o s) := by
  have same := rows_text o s
  constructor
  case returnFree => exact returnFree_text o s
  case untabbed =>
    rw [same]
    intro l mem
    obtain ⟨l', rfl⟩ := mem_body mem
    exact head?_line o l'
  case trimmed =>
    rw [same]
    intro trims l mem
    obtain ⟨l', rfl⟩ := mem_body mem
    exact getLast?_line trims l'
  case first =>
    rw [same]
    exact body_first o s.toList
  case last =>
    rw [same]
    exact body_last o s.toList
  case gaps =>
    rw [same]
    intro run blank inside
    have there := inside.trans (body_starts o s.toList).isInfix
    exact (spaced_squeeze _ _ _).gap_inside le_rfl blank there
  case closed =>
    intro some
    rw [toList_text]
    refine written_closed ?_ (fun l mem => (body_oneLine o s.toList l mem).1) (body_last_ne o s.toList)
    rwa [← toList_text, Ne, String.toList_eq_nil_iff]

theorem content_text (small : o.indent < memoryLimit) {category : FileCategory}
    (written : category ∈ [FileCategory.source, .markup, .stylesheet]) (s : String) :
    content o category s = .ok (text o s) := by
  simp only [List.mem_cons, List.not_mem_nil, or_false] at written
  obtain rfl | rfl | rfl := written <;> rw [content, checkStep_ok small] <;> rfl

/-- A formatted text is in form, formatting it once more changes nothing, and no other text is left as it is. So it
is for the files that are formatted as text, whatever the steps of indentation that memory can hold. -/
theorem text_settles (o : Options) (s : String) :
    InForm o (text o s) ∧ text o (text o s) = text o s ∧ (text o s = s ↔ InForm o s) ∧
      (o.indent < memoryLimit → ∀ category ∈ [FileCategory.source, .markup, .stylesheet],
        content o category s = .ok (text o s) ∧ content o category (text o s) = .ok (text o s)) := by
  have form := inForm_text o s
  refine ⟨form, form.text_eq, ⟨fun same => same ▸ form, InForm.text_eq⟩, fun small category written => ?_⟩
  exact ⟨content_text small written s, by rw [content_text small written, form.text_eq]⟩

/-- A source with tabs, with blanks at the ends of lines and with more blank lines than it should have. -/
def untidySource : String := "\n\n\tconst a = 1;   \r\n\n\n\n\t\treturn a;\t\n\n"

theorem untidySource_settles : Options.default.indent < memoryLimit ∧
    content .default .source untidySource = .ok "  const a = 1;\n\n    return a;\n" ∧
      InForm .default "  const a = 1;\n\n    return a;\n" := by
  have formed : text .default untidySource = "  const a = 1;\n\n    return a;\n" := by decide +kernel
  obtain ⟨form, -, -, files⟩ := text_settles .default untidySource
  have small : Options.default.indent < memoryLimit := by decide
  rw [formed] at form files
  exact ⟨small, (files small .source (by simp)).1, form⟩

end Arranged

section Gaps

variable {o : Options} {n : Nat} {l : List Char} {ls : List (List Char)}

/-- For each line that is not blank, the number of blank lines right in front of it; `n` more of them stand in
front of the first line. -/
def leads (n : Nat) : List (List Char) → List Nat
  | [] => []
  | l :: r => if isBlankLine l then leads (n + 1) r else n :: leads 0 r

/-- The numbers of blank lines between each line that is not blank and the next such line. -/
def gaps (ls : List (List Char)) : List Nat := (leads 0 ls).tail

theorem leads_blank (h : isBlankLine l = true) : leads n (l :: ls) = leads (n + 1) ls := by
  rw [leads, if_pos h]

theorem leads_shown (h : isBlankLine l = false) : leads n (l :: ls) = n :: leads 0 ls := by
  rw [leads, h, if_neg Bool.false_ne_true]

/-- Squeezing cuts the number of blank lines at the limit, where no more than `n` have been seen. -/
theorem leads_squeeze (limit n : Nat) (ls : List (List Char)) :
    leads (min n limit) (squeeze limit (limit - n) ls) = (leads n ls).map (min · limit) := by
  induction ls generalizing n with
  | nil => cases limit - n <;> rfl
  | cons l r ih =>
    cases h : isBlankLine l with
    | false =>
      have later := ih 0
      rw [Nat.zero_min, Nat.sub_zero] at later
      rw [squeeze_shown h, leads_shown h, leads_shown h, later, List.map_cons]
    | true =>
      have later := ih (n + 1)
      rw [leads_blank h]
      cases room : limit - n with
      | zero =>
        obtain ⟨full, none⟩ : min n limit = min (n + 1) limit ∧ limit - (n + 1) = 0 := by omega
        rw [squeeze_surplus h, ← later, full, none]
      | succ left =>
        obtain ⟨one, less⟩ : min n limit + 1 = min (n + 1) limit ∧ limit - (n + 1) = left := by omega
        rw [squeeze_blank h, leads_blank h, ← later, one, less]

theorem leads_append_gap {more : List (List Char)} (blank : IsGap more) : leads n (ls ++ more) = leads n ls := by
  induction ls generalizing n with
  | nil =>
    induction more generalizing n with
    | nil => rfl
    | cons l r ih =>
      obtain ⟨first, rest⟩ := List.forall_mem_cons.1 blank
      rw [List.nil_append, leads_blank first]
      exact ih rest
  | cons l r ih => rw [List.cons_append, leads, leads, ih, ih]

theorem leads_dropLastWhile (ls : List (List Char)) : leads n (dropLastWhile isBlankLine ls) = leads n ls := by
  have blank : IsGap (ls.rtakeWhile isBlankLine) := fun l mem => List.mem_rtakeWhile_imp mem
  have parts : ls.rdropWhile isBlankLine ++ ls.rtakeWhile isBlankLine = ls := List.rdropWhile_append_rtakeWhile
  calc leads n (dropLastWhile isBlankLine ls)
      = leads n (ls.rdropWhile isBlankLine ++ ls.rtakeWhile isBlankLine) := (leads_append_gap blank).symm
    _ = leads n ls := by rw [parts]

/-- What stands in front of the first line that is not blank is in no gap. -/
theorem gaps_dropWhile (ls : List (List Char)) : gaps (ls.dropWhile isBlankLine) = gaps ls := by
  have tails (n m : Nat) (ls : List (List Char)) : (leads n ls).tail = (leads m ls).tail := by
    induction ls generalizing n m with
    | nil => rfl
    | cons l r ih =>
      rw [leads, leads]
      split
      · exact ih _ _
      · rfl
  induction ls with
  | nil => rfl
  | cons l r ih =>
    rw [List.dropWhile_cons]
    split
    · next blank => rw [ih, gaps, gaps, leads_blank blank, tails]
    · rfl

theorem leads_map_line (o : Options) (n : Nat) (ls : List (List Char)) : leads n (ls.map (line o)) = leads n ls := by
  induction ls generalizing n with
  | nil => rfl
  | cons l r ih => rw [List.map_cons, leads, leads, isBlankLine_line, ih, ih]

theorem gaps_body (o : Options) (cs : List Char) :
    gaps (body o cs) = (gaps (linesOf cs)).map (min · o.blankLines) := by
  have squeezed := leads_squeeze o.blankLines 0 (((linesOf cs).map (line o)).dropWhile isBlankLine)
  rw [Nat.zero_min, Nat.sub_zero] at squeezed
  rw [body, gaps, leads_dropLastWhile, squeezed, ← List.map_tail, ← gaps, gaps_dropWhile, gaps, leads_map_line, ← gaps]

/-- The second line is the first with spaces for the tabs at its start and, where lines are trimmed, without the
blanks at its end. -/
def IsFormOf (o : Options) (l l' : List Char) : Prop :=
  ∃ tabs rest tail, l = List.replicate tabs '\t' ++ rest ∧ rest.head? ≠ some '\t' ∧
    List.replicate (o.indent * tabs) ' ' ++ rest = l' ++ tail ∧ (∀ c ∈ tail, isBlank c = true) ∧
    if o.trimsLines = true then ∀ c ∈ l'.getLast?, isBlank c = false else tail = []

theorem isFormOf_line (o : Options) (l : List Char) : IsFormOf o l (line o l) := by
  have tabs : l.takeWhile (· == '\t') = List.replicate (l.takeWhile (· == '\t')).length '\t' :=
    List.eq_replicate_of_mem fun c mem => by simpa using List.mem_takeWhile_imp mem
  have whole : l = List.replicate (l.takeWhile (· == '\t')).length '\t' ++ l.dropWhile (· == '\t') := by
    rw [← tabs, List.takeWhile_append_dropWhile]
  refine ⟨_, _, if o.trimsLines then (untab o.indent l).rtakeWhile isBlank else [], whole,
    head?_dropWhile_tab l, ?_, ?_, ?_⟩
  · change untab o.indent l = _
    rw [line]
    split
    · exact List.rdropWhile_append_rtakeWhile.symm
    · exact (List.append_nil _).symm
  · split
    · exact fun c mem => List.mem_rtakeWhile_imp mem
    · simp
  · split
    · next trims => exact getLast?_line trims l
    · rfl

theorem gaps_text (o : Options) (s : String) :
    gaps (linesOf (text o s).toList) = (gaps (linesOf s.toList)).map (min · o.blankLines) := by
  obtain ⟨more, blank, lines⟩ := linesOf_rows (text o s).toList
  rw [lines, gaps, leads_append_gap (isGap_rest blank), ← gaps, rows_text, gaps_body]

/-- The lines of a formatted text that are not blank are, one for one, those of the text in their form, and of
the blank lines between two of them as many are left as the limit allows. -/
theorem text_keeps_lines (o : Options) (s : String) :
    List.Forall₂ (IsFormOf o) (inked (linesOf s.toList)) (inked (linesOf (text o s).toList)) ∧
      gaps (linesOf (text o s).toList) = (gaps (linesOf s.toList)).map (min · o.blankLines) := by
  refine ⟨?_, gaps_text o s⟩
  rw [inked_text, List.forall₂_map_right_iff, List.forall₂_same]
  exact fun l _ => isFormOf_line o l

example : gaps (linesOf "\na\r\r\n \n\tb\n\nc".toList) = [2, 1] ∧
    gaps (linesOf (text .default "\na\r\r\n \n\tb\n\nc").toList) = [1, 1] := by decide +kernel

end Gaps

end Pagesmith.Format
