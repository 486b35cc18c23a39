import Pagesmith.Proofs.Markup.Marks

/-!
The width of a layout. In a tree whose texts hold no line ends, an opening tag stands on one line exactly if
that line is not longer than the width; and a line that is longer holds one thing only, behind its
indentation.
-/

namespace Pagesmith.Markup
open Text Script

/-- No line end stands in what a mark is made of, and no attribute is empty. -/
def Mark.IsWhole : Mark → Prop
  | opening tag attributes _ => IsUnbroken tag ∧ ∀ a ∈ attributes, a.render ≠ "" ∧ IsUnbroken a.render
  | child t => IsUnbroken t
  | closing tag => IsUnbroken tag

instance (m : Mark) : Decidable m.IsWhole :=
  match m with
  | .opening tag attributes _ =>
    inferInstanceAs (Decidable (IsUnbroken tag ∧ ∀ a ∈ attributes, a.render ≠ "" ∧ IsUnbroken a.render))
  | .child t => inferInstanceAs (Decidable (IsUnbroken t))
  | .closing tag => inferInstanceAs (Decidable (IsUnbroken tag))

/-- An opening tag on one line. -/
def together (indent tag : String) (attributes : List Attribute) (selfClosing : Bool) : String :=
  indent ++ openingLine tag (attributes.map Attribute.render) (if selfClosing then " />" else ">")

/-- The start of an opening tag, each of its attributes and its end on lines of their own. -/
def apart (indent tag : String) (attributes : List Attribute) (selfClosing : Bool) : List String :=
  (indent ++ "<" ++ tag) :: (attributes.map fun a => indent ++ indentStep ++ a.render) ++
    [indent ++ if selfClosing then "/>" else ">"]

/-- What is written for an opening tag: one line exactly if that fits the width. -/
structure Opens (width : Nat) (indent tag : String) (attributes : List Attribute) (selfClosing : Bool)
    (cs : List Char) : Prop where
  one_line : cs.count '\n' = 1 ↔ (together indent tag attributes selfClosing).length ≤ width
  short : cs.count '\n' = 1 → cs = fed (together indent tag attributes selfClosing)
  long : cs.count '\n' ≠ 1 → cs = (apart indent tag attributes selfClosing).flatMap fed

/-- What is written for a mark if the outermost element is indented by `base` steps. -/
def Ruled (width base : Nat) : Nat × Mark → List Char → Prop
  | (depth, .opening tag attributes selfClosing), cs =>
    Opens width (indentation (base + depth)) tag attributes selfClosing cs
  | (depth, .child t), cs => cs = t.toList ∨ cs = fed (indentation (base + depth) ++ t)
  | (depth, .closing tag), cs =>
    cs = ("</" ++ tag ++ ">").toList ∨ cs = fed (indentation (base + depth) ++ "</" ++ tag ++ ">")

/-- A line that holds one thing of a mark: the start, an attribute or the end of an opening tag, a child, or a
closing tag. -/
inductive Lone (base : Nat) : Nat × Mark → String → Prop
  | start {depth : Nat} {tag : String} {attributes : List Attribute} {selfClosing : Bool} :
      Lone base (depth, .opening tag attributes selfClosing) (indentation (base + depth) ++ "<" ++ tag)
  | attribute {depth : Nat} {tag : String} {attributes : List Attribute} {selfClosing : Bool} {a : Attribute}
      (mem : a ∈ attributes) : Lone base (depth, .opening tag attributes selfClosing)
        (indentation (base + depth) ++ indentStep ++ a.render)
  | bracket {depth : Nat} {tag : String} {attributes : List Attribute} {selfClosing : Bool} :
      Lone base (depth, .opening tag attributes selfClosing)
        (indentation (base + depth) ++ if selfClosing then "/>" else ">")
  | child {depth : Nat} {t : String} : Lone base (depth, .child t) (indentation (base + depth) ++ t)
  | closing {depth : Nat} {tag : String} :
      Lone base (depth, .closing tag) (indentation (base + depth) ++ "</" ++ tag ++ ">")

theorem unbroken_indentation (n : Nat) : IsUnbroken (indentation n) := by
  intro c mem
  rw [indentation, String.toList_ofList] at mem
  rw [List.eq_of_mem_replicate mem]
  rfl

theorem unbroken_closing {indent tag : String} (indented : IsUnbroken indent) (whole : IsUnbroken tag) :
    IsUnbroken (indent ++ "</" ++ tag ++ ">") :=
  ((indented.append (by decide : IsUnbroken "</")).append whole).append (by decide : IsUnbroken ">")

/-- Line feeds stand in front of lines without line ends, and nowhere else. -/
theorem count_fed {ls : List String} (whole : ∀ l ∈ ls, IsUnbroken l) :
    (ls.flatMap fed).count '\n' = ls.length := by
  induction ls with
  | nil => rfl
  | cons l r ih =>
    obtain ⟨first, rest⟩ := List.forall_mem_cons.1 whole
    rw [List.flatMap_cons, List.count_append, ih rest, fed, List.count_cons_self,
      List.count_eq_zero_of_not_mem first.feed_notMem, List.length_cons, Nat.zero_add, Nat.add_comm]

section Opening

variable {indent tag : String} {attributes : List Attribute} {selfClosing : Bool}
  (indented : IsUnbroken indent) (whole : (Mark.opening tag attributes selfClosing).IsWhole)

include indented whole

theorem unbroken_together : IsUnbroken (together indent tag attributes selfClosing) := by
  have last : IsUnbroken (if selfClosing then " />" else ">") := by
    cases selfClosing <;> decide
  have spaced : IsUnbroken (String.join ((attributes.map Attribute.render).map (" " ++ ·))) := by
    intro c mem
    simp only [String.toList_join, List.map_map, List.mem_flatMap, List.mem_map] at mem
    obtain ⟨-, ⟨a, listed, rfl⟩, mem⟩ := mem
    exact (by decide : IsUnbroken " ").append (whole.2 a listed).2 c mem
  exact indented.append ((((by decide : IsUnbroken "<").append whole.1).append spaced).append last)

theorem unbroken_apart : ∀ l ∈ apart indent tag attributes selfClosing, IsUnbroken l := by
  have start := (indented.append (by decide : IsUnbroken "<")).append whole.1
  have step := indented.append (by decide : IsUnbroken indentStep)
  have last : IsUnbroken (if selfClosing then "/>" else ">") := by
    cases selfClosing <;> decide
  intro l mem
  obtain mem | mem := List.mem_append.1 mem
  · obtain rfl | mem := List.mem_cons.1 mem
    · exact start
    · obtain ⟨a, listed, rfl⟩ := List.mem_map.1 mem
      exact step.append (whole.2 a listed).2
  · rw [List.mem_singleton.1 mem]
    exact indented.append last

theorem opening_whole (width : Nat) : opening width indent tag attributes selfClosing =
    if (together indent tag attributes selfClosing).length ≤ width then
      [together indent tag attributes selfClosing]
    else apart indent tag attributes selfClosing := by
  have free := (unbroken_together indented whole).feed_notMem
  have cut : (attributes.map Attribute.render).flatMap lines = attributes.map Attribute.render := by
    rw [List.flatMap_map]
    refine (List.flatMap_congr fun a mem => ?_).trans List.map_eq_flatMap.symm
    exact lines_unbroken (whole.2 a mem).1 (whole.2 a mem).2
  rw [together, String.toList_append, List.mem_append, not_or] at free
  rw [opening, cut, List.map_map, together, String.length_append]
  simp only [List.contains_eq_mem, free.2, decide_false, Bool.not_false, Bool.and_true, decide_eq_true_eq]
  rfl

theorem opening_opens (width : Nat) : Opens width indent tag attributes selfClosing
    ((opening width indent tag attributes selfClosing).flatMap fed) := by
  rw [opening_whole indented whole]
  split
  · next short =>
    have count : ([together indent tag attributes selfClosing].flatMap fed).count '\n' = 1 :=
      count_fed (by simpa using unbroken_together indented whole)
    exact ⟨iff_of_true count short, fun _ => by simp, fun other => absurd count other⟩
  · next long =>
    have count := count_fed (unbroken_apart indented whole)
    have several : ((apart indent tag attributes selfClosing).flatMap fed).count '\n' ≠ 1 := by
      rw [count, apart]
      simp
    exact ⟨iff_of_false several long, fun one => absurd one several, fun _ => rfl⟩

end Opening

theorem Stands.ruled {width base : Nat} {e : Nat × Mark} {cs : List Char} (h : Stands width base e cs)
    (whole : e.2.IsWhole) : Ruled width base e cs := by
  cases h with
  | opening => exact opening_opens (unbroken_indentation _) whole width
  | childBelow | closingBelow => exact .inr rfl
  | childInside | closingInside => exact .inl rfl

/-- A line of a layout: nothing ends it early, and if it is longer than the width, it holds one thing of one of
the marks. -/
structure Narrow (width base : Nat) (ms : List (Nat × Mark)) (l : String) : Prop where
  unbroken : IsUnbroken l
  lone : width < l.length → ∃ e ∈ ms, Lone base e l

section Lines

variable {width base depth : Nat} {l : String}

theorem Narrow.mono {ms ms' : List (Nat × Mark)} (h : Narrow width base ms l) (sub : ms ⊆ ms') :
    Narrow width base ms' l :=
  ⟨h.unbroken, fun long => let ⟨e, mem, lone⟩ := h.lone long; ⟨e, sub mem, lone⟩⟩

theorem Narrow.of_lone {e : Nat × Mark} (unbroken : IsUnbroken l) (lone : Lone base e l) :
    Narrow width base [e] l :=
  ⟨unbroken, fun _ => ⟨e, List.mem_singleton.2 rfl, lone⟩⟩

theorem opening_narrow {tag : String} {attributes : List Attribute} {selfClosing : Bool}
    (whole : (Mark.opening tag attributes selfClosing).IsWhole)
    (mem : l ∈ opening width (indentation (base + depth)) tag attributes selfClosing) :
    Narrow width base [(depth, .opening tag attributes selfClosing)] l := by
  have indented := unbroken_indentation (base + depth)
  rw [opening_whole indented whole] at mem
  split at mem
  · next short =>
    obtain rfl := List.mem_singleton.1 mem
    exact ⟨unbroken_together indented whole, fun long => absurd short (Nat.not_le.2 long)⟩
  · refine .of_lone (unbroken_apart indented whole l mem) ?_
    obtain mem | mem := List.mem_append.1 mem
    · obtain rfl | mem := List.mem_cons.1 mem
      · exact .start
      · obtain ⟨a, listed, rfl⟩ := List.mem_map.1 mem
        exact .attribute listed
    · rw [List.mem_singleton.1 mem]
      exact .bracket

mutual

theorem layout_narrow (width base depth : Nat) (m : Markup) (whole : ∀ e ∈ m.marks depth, e.2.IsWhole) :
    ∀ l ∈ layout width (indentation (base + depth)) m, Narrow width base (m.marks depth) l := by
  have indented := unbroken_indentation (base + depth)
  match m with
  | text t =>
    rw [marks] at whole ⊢
    simp only [layout, List.forall_mem_singleton] at whole ⊢
    exact .of_lone (indented.append whole) .child
  | code c =>
    rw [marks] at whole ⊢
    simp only [layout, List.forall_mem_singleton, String.append_assoc] at whole ⊢
    exact .of_lone (indented.append whole) .child
  | element tag attributes [] =>
    rw [marks] at whole ⊢
    rw [layout]
    exact fun l mem => opening_narrow (whole _ (List.mem_singleton.2 rfl)) mem
  | element tag attributes (child :: children) =>
    rw [marks] at whole ⊢
    have around := List.forall_mem_append.1 whole
    have start := (List.forall_mem_cons.1 around.1).1
    rw [layout]
    split
    · next line found =>
      obtain ⟨first, child', inline, alone, only, behind, rfl, short⟩ := compact?_cases found
      obtain ⟨rfl, rfl⟩ := List.cons.inj only
      rw [marksAll, marksAll, marks_inline behind, List.append_nil, List.forall_mem_cons] at around
      have text : IsUnbroken inline := around.1.2 _ (List.mem_singleton.2 rfl)
      have before := (opening_narrow start (by rw [alone]; exact List.mem_singleton.2 rfl)).unbroken
      simp only [List.forall_mem_singleton]
      refine ⟨?_, fun long => absurd short (Nat.not_le.2 long)⟩
      exact unbroken_closing (before.append text) start.1
    · intro l mem
      rw [indentation_step] at mem
      obtain mem | mem := List.mem_append.1 mem
      · obtain mem | mem := List.mem_append.1 mem
        · exact (opening_narrow start mem).mono (by simp)
        · exact (layouts_narrow width base (depth + 1) _ (List.forall_mem_cons.1 around.1).2 l mem).mono
            (by simp)
      · rw [List.mem_singleton.1 mem]
        exact (Narrow.of_lone (unbroken_closing indented start.1) .closing).mono (by simp)

theorem layouts_narrow (width base depth : Nat) (ms : List Markup)
    (whole : ∀ e ∈ marksAll depth ms, e.2.IsWhole) :
    ∀ l ∈ layouts width (indentation (base + depth)) ms, Narrow width base (marksAll depth ms) l := by
  match ms with
  | [] => simp [layouts]
  | m :: r =>
    rw [marksAll] at whole ⊢
    obtain ⟨first, rest⟩ := List.forall_mem_append.1 whole
    rw [layouts]
    intro l mem
    obtain mem | mem := List.mem_append.1 mem
    · exact (layout_narrow width base depth m first l mem).mono (List.subset_append_left _ _)
    · exact (layouts_narrow width base depth r rest l mem).mono (List.subset_append_right _ _)

end

/-- The last line of an element holds its end. -/
theorem layout_last (width : Nat) (indent tag : String) (attributes : List Attribute) (children : List Markup) :
    (layout width indent (element tag attributes children)).getLast? ≠ some "" := by
  cases children with
  | nil =>
    rw [layout]
    obtain one | several := opening_cases width indent tag attributes true
    · rw [one]
      simp [openingLine]
    · rw [several, ← List.cons_append, List.getLast?_concat]
      simp
  | cons child children =>
    rw [layout]
    split
    · next line found =>
      obtain ⟨first, child, inline, -, -, -, rfl, -⟩ := compact?_cases found
      simp
    · simp

/-- If no line end stands in the texts of an element and no attribute is empty, its opening tags are on one
line exactly if they fit the width there, and on one for each attribute otherwise; and each line that is
longer than the width holds one thing of one mark. -/
theorem layout_keeps_width (width : Nat) (depth : Int) (tag : String) (attributes : List Attribute)
    (children : List Markup) (whole : ∀ e ∈ (element tag attributes children).marks 0, e.2.IsWhole)
    (out : String) (rendered : render? width depth (element tag attributes children) = .ok out) :
    (∃ chunks : List (List Char), '\n' :: out.toList = chunks.flatten ∧
      List.Forall₂ (Ruled width depth.toNat) ((element tag attributes children).marks 0) chunks) ∧
    ∀ l ∈ lines out, width < l.length →
      ∃ e ∈ (element tag attributes children).marks 0, Lone depth.toNat e l := by
  obtain ⟨-, rfl⟩ := render?_eq_ok.1 rendered
  have narrow := layout_narrow width depth.toNat 0 _ whole
  constructor
  · obtain ⟨chunks, text, stand⟩ := layout_marks width depth.toNat 0 (element tag attributes children)
    refine ⟨chunks, ?_, ?_⟩
    · rw [← text, render, unlines_fed (layout_ne_nil _ _ _)]
      rfl
    · have both := (List.forall₂_and_left _ _).2 ⟨whole, stand⟩
      exact both.imp fun e cs h => h.2.ruled h.1
  · have cut : lines (render width depth.toNat (element tag attributes children)) =
        layout width (indentation depth.toNat) (element tag attributes children) :=
      lines_unlines (fun l mem => (narrow l mem).unbroken) (layout_last _ _ _ _ _)
    rw [cut]
    exact fun l mem => (narrow l mem).lone

theorem layout_keeps_width_attribute :
    (∀ e ∈ (element "Col" [⟨"title", .quoted "a name"⟩] [text "b"]).marks 0, e.2.IsWhole) ∧
    render? 10 1 (element "Col" [⟨"title", .quoted "a name"⟩] [text "b"]) =
      .ok "  <Col\n    title=\"a name\"\n  >\n    b\n  </Col>" ∧
    ∃ e ∈ (element "Col" [⟨"title", .quoted "a name"⟩] [text "b"]).marks 0,
      Lone 1 e "    title=\"a name\"" := by
  have whole : ∀ e ∈ (element "Col" [⟨"title", .quoted "a name"⟩] [text "b"]).marks 0, e.2.IsWhole := by
    simp only [marks, marksAll]
    decide
  have rendered : render? 10 1 (element "Col" [⟨"title", .quoted "a name"⟩] [text "b"]) =
      .ok "  <Col\n    title=\"a name\"\n  >\n    b\n  </Col>" :=
    render?_eq_ok.2 ⟨rfl, by decide +kernel⟩
  have kept := layout_keeps_width 10 1 "Col" [⟨"title", .quoted "a name"⟩] [text "b"] whole _ rendered
  have line : "    title=\"a name\"" ∈ lines "  <Col\n    title=\"a name\"\n  >\n    b\n  </Col>" := by
    decide +kernel
  have long : 10 < "    title=\"a name\"".length := by decide
  exact ⟨whole, rendered, kept.2 _ line long⟩

end Lines

end Pagesmith.Markup
