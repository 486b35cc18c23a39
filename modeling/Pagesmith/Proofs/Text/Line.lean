import Pagesmith.Text.Blank
import Pagesmith.Text.Part
import Mathlib.Data.List.Infix

/-!
Lines of a text and what stands in them. A piece without line ends that stands in a text stands in
one of its lines; no line holds a line end.
-/

namespace Pagesmith.Text

/-- A piece of a text that is not empty and that no line end cuts. -/
structure Piece (t : List Char) : Prop where
  given : t ≠ []
  whole : ∀ c ∈ t, isLineEnd c = false

/-- The piece stands in the text. -/
def Holds (s : String) (t : List Char) : Prop := t <:+: s.toList

theorem Holds.append_left {s : String} {t : List Char} (h : Holds s t) (left : String) :
    Holds (left ++ s) t := by
  rw [Holds, String.toList_append]
  exact List.infix_append_of_infix_right h

theorem Holds.append_right {s : String} {t : List Char} (h : Holds s t) (right : String) :
    Holds (s ++ right) t := by
  rw [Holds, String.toList_append]
  exact List.infix_append_of_infix_left h

theorem Holds.intercalate {s sep : String} {texts : List String} {t : List Char} (h : Holds s t)
    (mem : s ∈ texts) : Holds (String.intercalate sep texts) t := by
  induction texts with
  | nil => cases mem
  | cons u r ih =>
    match r with
    | [] =>
      obtain rfl := List.mem_singleton.1 mem
      simpa using h
    | v :: r =>
      rw [String.intercalate_cons_cons]
      obtain rfl | mem := List.mem_cons.1 mem
      · exact (h.append_right sep).append_right _
      · exact (ih mem).append_left _

/-- A piece that does not hold the character between two texts stands in one of them. -/
theorem infix_around {t left right : List Char} {c : Char} (free : c ∉ t) :
    t <:+: left ++ c :: right ↔ t <:+: left ∨ t <:+: right := by
  constructor
  · rintro ⟨before, after, same⟩
    obtain ⟨rest, rfl, -⟩ | ⟨rest, found, split⟩ := List.append_eq_append_iff.1 same
    · exact .inl ⟨before, rest, rfl⟩
    · cases rest with
      | nil => exact .inl ⟨before, [], by simpa using found⟩
      | cons d rest =>
        obtain ⟨rfl, rfl⟩ := List.cons.inj split
        obtain ⟨start, rfl, inside⟩ | ⟨start, rfl, inside⟩ := List.append_eq_append_iff.1 found
        · exact absurd (by simp [inside]) free
        · cases start with
          | nil =>
            rw [List.nil_append] at inside
            exact absurd (inside ▸ List.mem_cons_self) free
          | cons d start =>
            obtain ⟨-, rfl⟩ := List.cons.inj inside
            exact .inr ⟨start, after, rfl⟩
  · rintro (h | h)
    · exact List.infix_append_of_infix_left h
    · exact List.infix_append_of_infix_right (List.infix_cons h)

theorem splitLines_end {c : Char} (h : isLineEnd c = true) (r : List Char) :
    ∃ s, (s = r ∨ r = '\n' :: s) ∧ splitLines (c :: r) = [] :: splitLines s := by
  by_cases pair : c = '\r' ∧ r.head? = some '\n'
  · obtain ⟨rfl, first⟩ := pair
    obtain ⟨s, rfl⟩ := List.head?_eq_some_iff.1 first
    exact ⟨s, .inr rfl, rfl⟩
  · refine ⟨r, .inl rfl, ?_⟩
    rw [splitLines]
    · rw [if_pos h]
    · rintro s rfl rfl
      exact pair ⟨rfl, rfl⟩

theorem splitLines_plain {c : Char} (h : isLineEnd c = false) (r : List Char) :
    splitLines (c :: r) = match splitLines r with
      | [] => [[c]]
      | l :: ls => (c :: l) :: ls := by
  rw [splitLines]
  · rw [h]
    rfl
  · rintro s rfl
    cases h

theorem prefix_splitLines {t cs : List Char} (piece : Piece t) (h : t <+: cs) :
    ∃ l ls, splitLines cs = l :: ls ∧ t <+: l := by
  obtain ⟨given, whole⟩ := piece
  induction t generalizing cs with
  | nil => contradiction
  | cons c t ih =>
    obtain ⟨r, rfl, start⟩ := List.cons_prefix_iff.1 h
    have plain := splitLines_plain (whole c (by simp)) r
    by_cases last : t = []
    · subst last
      rw [plain]
      cases splitLines r with
      | nil => exact ⟨[c], [], rfl, List.prefix_refl _⟩
      | cons l ls => exact ⟨c :: l, ls, rfl, by simp⟩
    · obtain ⟨l, ls, lines, found⟩ := ih start last fun d mem => whole d (by simp [mem])
      rw [lines] at plain
      exact ⟨c :: l, ls, plain, by simpa using found⟩

/-- A piece does not start with a line end. -/
theorem Piece.infix_tail {t : List Char} (piece : Piece t) {c : Char} (h : isLineEnd c = true)
    {r : List Char} (found : t <:+: c :: r) : t <:+: r := by
  obtain start | later := List.infix_cons_iff.1 found
  · obtain ⟨given, whole⟩ := piece
    cases t with
    | nil => contradiction
    | cons d t =>
      obtain ⟨rfl, -⟩ := List.cons_prefix_cons.1 start
      rw [whole d (by simp)] at h
      cases h
  · exact later

/-- A piece that stands in a text stands in one of its lines. -/
theorem infix_splitLines {t cs : List Char} (piece : Piece t) (h : t <:+: cs) :
    ∃ l ∈ splitLines cs, t <:+: l := by
  -- A carriage return and a line feed end one line together, so a step may go two characters on.
  induction n : cs.length using Nat.strong_induction_on generalizing cs with
  | _ n ih =>
    subst n
    match cs with
    | [] => exact absurd (List.infix_nil.1 h) piece.given
    | c :: r =>
      by_cases ends : isLineEnd c = true
      · obtain ⟨s, rest, lines⟩ := splitLines_end ends r
        have later := piece.infix_tail ends h
        have short : s.length < (c :: r).length ∧ t <:+: s := by
          obtain rfl | rfl := rest
          · exact ⟨by simp, later⟩
          · exact ⟨by simp only [List.length_cons]; omega, piece.infix_tail rfl later⟩
        obtain ⟨l, mem, found⟩ := ih s.length short.1 short.2 rfl
        exact ⟨l, by simp [lines, mem], found⟩
      · have plain := splitLines_plain (by simpa using ends) r
        obtain start | later := List.infix_cons_iff.1 h
        · obtain ⟨l, ls, lines, found⟩ := prefix_splitLines piece start
          exact ⟨l, by simp [lines], found.isInfix⟩
        · obtain ⟨l, mem, found⟩ := ih r.length (by simp) later rfl
          obtain ⟨first, rest, lines⟩ := List.exists_cons_of_ne_nil (List.ne_nil_of_mem mem)
          rw [lines] at mem plain
          obtain rfl | mem := List.mem_cons.1 mem
          · exact ⟨c :: l, by simp [plain], List.infix_cons found⟩
          · exact ⟨l, by simp [plain, mem], found⟩

/-- No line holds a line end. -/
theorem splitLines_whole (cs : List Char) : ∀ l ∈ splitLines cs, ∀ c ∈ l, isLineEnd c = false := by
  induction n : cs.length using Nat.strong_induction_on generalizing cs with
  | _ n ih =>
    subst n
    match cs with
    | [] => simp [splitLines]
    | c :: r =>
      by_cases ends : isLineEnd c = true
      · obtain ⟨s, rest, lines⟩ := splitLines_end ends r
        have short : s.length < (c :: r).length := by
          obtain rfl | rfl := rest
          · simp
          · simp only [List.length_cons]
            omega
        rw [lines]
        simpa using ih s.length short s rfl
      · have plain : isLineEnd c = false := by simpa using ends
        have rest := ih r.length (by simp) r rfl
        rw [splitLines_plain plain]
        cases lines : splitLines r with
        | nil => simpa using plain
        | cons l ls =>
          rw [lines] at rest
          simp only [List.forall_mem_cons] at rest ⊢
          exact ⟨⟨plain, rest.1⟩, rest.2⟩

theorem splitLines_unbroken {cs : List Char} (given : cs ≠ []) (whole : ∀ c ∈ cs, isLineEnd c = false) :
    splitLines cs = [cs] := by
  induction cs with
  | nil => contradiction
  | cons c r ih =>
    obtain ⟨first, rest⟩ := List.forall_mem_cons.1 whole
    rw [splitLines_plain first]
    cases r with
    | nil => rfl
    | cons d r => rw [ih (by simp) rest]

theorem lines_unbroken {s : String} (given : s ≠ "") (whole : ∀ c ∈ s.toList, isLineEnd c = false) :
    lines s = [s] := by
  rw [lines, splitLines_unbroken (fun empty => given (String.toList_inj.1 empty)) whole]
  simp

/-- Nothing in the text is taken for the end of a line. -/
def IsUnbroken (s : String) : Prop := ∀ c ∈ s.toList, isLineEnd c = false

instance (s : String) : Decidable (IsUnbroken s) :=
  List.decidableBAll (fun c => isLineEnd c = false) s.toList

theorem IsUnbroken.append {s s' : String} (h : IsUnbroken s) (h' : IsUnbroken s') :
    IsUnbroken (s ++ s') := by
  rw [IsUnbroken, String.toList_append, List.forall_mem_append]
  exact ⟨h, h'⟩

theorem IsUnbroken.feed_notMem {s : String} (h : IsUnbroken s) : '\n' ∉ s.toList := fun mem =>
  absurd (h _ mem) (by decide)

theorem splitLines_feed {cs : List Char} (whole : ∀ c ∈ cs, isLineEnd c = false) (r : List Char) :
    splitLines (cs ++ '\n' :: r) = cs :: splitLines r := by
  induction cs with
  | nil => rfl
  | cons c cs ih =>
    obtain ⟨first, rest⟩ := List.forall_mem_cons.1 whole
    rw [List.cons_append, splitLines_plain first, ih rest]

/-- Lines put together are cut where they were, unless the last one is empty. -/
theorem lines_unlines {ls : List String} (whole : ∀ l ∈ ls, IsUnbroken l)
    (last : ls.getLast? ≠ some "") : lines (unlines ls) = ls := by
  induction ls with
  | nil => rfl
  | cons l r ih =>
    obtain ⟨first, rest⟩ := List.forall_mem_cons.1 whole
    match r with
    | [] =>
      have given : l ≠ "" := by simpa using last
      simpa [unlines] using lines_unbroken given first
    | l' :: r =>
      have cut : (unlines (l :: l' :: r)).toList = l.toList ++ '\n' :: (unlines (l' :: r)).toList := by
        simp [unlines, String.intercalate_cons_cons]
      have tail := ih rest (by simpa using last)
      rw [lines] at tail
      rw [lines, cut, splitLines_feed first, List.map_cons, tail, String.ofList_toList]

theorem unlines_cons (l : String) (ls : List String) :
    (unlines (l :: ls)).toList = l.toList ++ ls.flatMap fun l => '\n' :: l.toList := by
  induction ls generalizing l with
  | nil => simp [unlines]
  | cons l' r ih =>
    rw [unlines, String.intercalate_cons_cons, String.toList_append, String.toList_append, List.flatMap_cons,
      ← unlines, ih l']
    simp

theorem mem_unlines {c : Char} (other : c ≠ '\n') {ls : List String} :
    c ∈ (unlines ls).toList ↔ ∃ l ∈ ls, c ∈ l.toList := by
  cases ls with
  | nil => simp [unlines]
  | cons l r =>
    rw [unlines_cons]
    simp [other]

/-- Whatever is taken for the end of a line is blank. -/
theorem isBlank_lineEnd {c : Char} (h : isLineEnd c = true) : isBlank c = true := by
  simp only [isLineEnd, Bool.or_eq_true, Bool.and_eq_true, decide_eq_true_eq, beq_iff_eq] at h
  rw [isBlank, List.any_eq_true]
  obtain (((range | range) | code) | code) | code := h
  · exact ⟨(0x09, 0x0d), by decide, by simp; omega⟩
  · exact ⟨(0x1c, 0x20), by decide, by simp; omega⟩
  · exact ⟨(0x85, 0x85), by decide, by simp; omega⟩
  · exact ⟨(0x2028, 0x2029), by decide, by simp; omega⟩
  · exact ⟨(0x2028, 0x2029), by decide, by simp; omega⟩

/-- The only line ends of the text are line feeds. -/
def Feeds (s : String) : Prop := ∀ c ∈ s.toList, isLineEnd c = true → c = '\n'

instance (s : String) : Decidable (Feeds s) :=
  List.decidableBAll (fun c => isLineEnd c = true → c = '\n') s.toList

theorem Feeds.append {s s' : String} (h : Feeds s) (h' : Feeds s') : Feeds (s ++ s') := by
  intro c mem
  rw [String.toList_append] at mem
  obtain mem | mem := List.mem_append.1 mem
  · exact h c mem
  · exact h' c mem

theorem Feeds.intercalate {sep : String} {texts : List String} (between : Feeds sep)
    (h : ∀ s ∈ texts, Feeds s) : Feeds (String.intercalate sep texts) := by
  induction texts with
  | nil => simp [Feeds]
  | cons u r ih =>
    match r with
    | [] => simpa using h
    | v :: r =>
      rw [String.intercalate_cons_cons]
      exact ((h u (by simp)).append between).append (ih fun s mem => h s (by simp [mem]))

theorem feeds_lines (s : String) : ∀ l ∈ lines s, Feeds l := by
  intro l mem
  obtain ⟨cs, found, rfl⟩ := List.mem_map.1 mem
  intro c inside ends
  rw [String.toList_ofList] at inside
  rw [splitLines_whole _ cs found c inside] at ends
  cases ends

theorem holds_lines {s : String} {t : List Char} (piece : Piece t) (h : Holds s t) :
    ∃ l ∈ lines s, Holds l t := by
  obtain ⟨l, mem, found⟩ := infix_splitLines piece h
  refine ⟨String.ofList l, List.mem_map_of_mem mem, ?_⟩
  rwa [Holds, String.toList_ofList]

/-- What is found in texts one by one is found in the texts put together, if nothing runs over from one
to the next. -/
theorem flatMap_intercalate {α : Type} {f : String → List α} {sep : String} (empty : f "" = [])
    (apart : ∀ s t, f (s ++ sep ++ t) = f s ++ f t) (texts : List String) :
    f (String.intercalate sep texts) = texts.flatMap f := by
  induction texts with
  | nil => exact empty
  | cons s r ih =>
    match r with
    | [] => simp
    | t :: r =>
      rw [String.intercalate_cons_cons, apart, ih]
      rfl

theorem hasStart_append (s t : String) : hasStart s (s ++ t) = true := by
  rw [hasStart, String.toList_append]
  exact List.isPrefixOf_iff_prefix.2 (List.prefix_append _ _)

theorem dropChars_append (s t : String) : dropChars s.length (s ++ t) = t := by
  rw [dropChars, String.toList_append, ← String.length_toList, List.drop_left,
    String.ofList_toList]

section Pieces

variable {α β : Type} [DecidableEq α] [DecidableEq β]

theorem pieces_ne_nil (c : α) (s : List α) : pieces c s ≠ [] := by
  cases s with
  | nil => simp [pieces]
  | cons d s =>
    rw [pieces]
    split
    · simp
    · split <;> simp

theorem pieces_append (c : α) (s r : List α) :
    pieces c (s ++ c :: r) = pieces c s ++ pieces c r := by
  induction s with
  | nil => simp [pieces]
  | cons d s ih =>
    simp only [List.cons_append, pieces]
    split
    · rw [ih]
      rfl
    · obtain ⟨p, ps, found⟩ := List.exists_cons_of_ne_nil (pieces_ne_nil c s)
      rw [ih, found]
      rfl

theorem pieces_whole {c : α} {s : List α} (free : c ∉ s) : pieces c s = [s] := by
  induction s with
  | nil => rfl
  | cons d s ih =>
    simp only [List.mem_cons, not_or] at free
    have other : (d == c) = false := by simpa using Ne.symm free.1
    rw [pieces, other, ih free.2]
    rfl

theorem intercalate_pieces (c : α) (s : List α) : [c].intercalate (pieces c s) = s := by
  induction s with
  | nil => rfl
  | cons d s ih =>
    obtain ⟨p, ps, found⟩ := List.exists_cons_of_ne_nil (pieces_ne_nil c s)
    rw [found] at ih
    rw [pieces]
    split
    · next same =>
      rw [found, List.intercalate_cons_cons, ih, eq_of_beq same]
      rfl
    · rw [found]
      cases ps with
      | nil => simpa using ih
      | cons q qs =>
        rw [List.intercalate_cons_cons] at ih ⊢
        exact congrArg (List.cons d) ih

/-- The pieces are parts of the text without the separator. -/
theorem mem_pieces {c : α} {s l : List α} (mem : l ∈ pieces c s) : c ∉ l ∧ l ⊆ s := by
  induction s generalizing l with
  | nil =>
    obtain rfl := List.mem_singleton.1 mem
    simp
  | cons d s ih =>
    obtain ⟨p, ps, found⟩ := List.exists_cons_of_ne_nil (pieces_ne_nil c s)
    obtain ⟨⟨free, inside⟩, more⟩ : (c ∉ p ∧ p ⊆ s) ∧ ∀ l ∈ ps, c ∉ l ∧ l ⊆ s := by
      rw [found] at ih
      exact List.forall_mem_cons.1 fun l => ih
    have later (l : List α) (sub : l ⊆ s) : l ⊆ d :: s := fun _ there => List.mem_cons_of_mem d (sub there)
    rw [pieces, found] at mem
    split at mem
    · obtain rfl | rfl | mem := by simpa using mem
      · simp
      · exact ⟨free, later _ inside⟩
      · exact ⟨(more l mem).1, later l (more l mem).2⟩
    · next other =>
      obtain rfl | mem := List.mem_cons.1 mem
      · have differ : c ≠ d := fun same => other (by rw [same]; exact beq_self_eq_true d)
        exact ⟨by simp [differ, free], List.cons_subset_cons d inside⟩
      · exact ⟨(more l mem).1, later l (more l mem).2⟩

/-- A text is known from its pieces. -/
theorem pieces_inj {c : α} {s s' : List α} (same : pieces c s = pieces c s') : s = s' := by
  rw [← intercalate_pieces c s, same, intercalate_pieces]

/-- Pieces without the separator, put together, are cut where they were. -/
theorem pieces_intercalate {c : α} {ls : List (List α)} (some : ls ≠ [])
    (free : ∀ l ∈ ls, c ∉ l) : pieces c ([c].intercalate ls) = ls := by
  induction ls with
  | nil => exact absurd rfl some
  | cons l r ih =>
    obtain ⟨first, rest⟩ := List.forall_mem_cons.1 free
    match r with
    | [] => simpa using pieces_whole first
    | l' :: r =>
      have text : [c].intercalate (l :: l' :: r) = l ++ c :: [c].intercalate (l' :: r) := by
        simp [List.intercalate_cons_cons]
      rw [text, pieces_append, pieces_whole first, ih (by simp) rest]
      rfl

theorem mem_joined {γ : Type} {c d : γ} {ls : List (List γ)} (mem : d ∈ [c].intercalate ls) :
    d = c ∨ ∃ l ∈ ls, d ∈ l := by
  induction ls with
  | nil => simp at mem
  | cons l r ih =>
    match r with
    | [] => exact .inr ⟨l, List.mem_cons_self, by simpa using mem⟩
    | l' :: r =>
      simp only [List.intercalate_cons_cons, List.mem_append, List.mem_singleton] at mem
      obtain (mem | same) | mem := mem
      · exact .inr ⟨l, List.mem_cons_self, mem⟩
      · exact .inl same
      · obtain same | ⟨l, there, mem⟩ := ih mem
        · exact .inl same
        · exact .inr ⟨l, List.mem_cons_of_mem _ there, mem⟩

/-- Spelled in other letters, a text has the pieces it had. -/
theorem pieces_map {f : α → β} (apart : Function.Injective f) (c : α) (s : List α) :
    pieces (f c) (s.map f) = (pieces c s).map (List.map f) := by
  induction s with
  | nil => rfl
  | cons d s ih =>
    obtain ⟨p, ps, found⟩ := List.exists_cons_of_ne_nil (pieces_ne_nil c s)
    rw [List.map_cons, pieces, pieces, ih, found]
    by_cases same : d = c
    · rw [same, if_pos (beq_self_eq_true _), if_pos (beq_self_eq_true _)]
      rfl
    · rw [if_neg (by simpa using fun h => same (apart h)), if_neg (by simpa using same)]
      rfl

end Pieces

end Pagesmith.Text
