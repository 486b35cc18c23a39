import Pagesmith.Markup.Layout
import Pagesmith.Proofs.Text.Line

/-!
What a markup tree shows stands in a line of its layout, whatever the width and the indentation are
and however its tags are broken.
-/

namespace Pagesmith.Markup
open Text

variable {t : List Char}

/-- The piece stands in a text, a code or an attribute of the tree. -/
inductive Shows (t : List Char) : Markup → Prop
  | text {s : String} (h : Holds s t) : Shows t (.text s)
  | code {c : String} (h : Holds c t) : Shows t (.code c)
  | own {tag : String} {attributes : List Attribute} {children : List Markup} {a : Attribute}
      (mem : a ∈ attributes) (h : Holds a.render t) : Shows t (.element tag attributes children)
  | inner {tag : String} {attributes : List Attribute} {children : List Markup} {m : Markup}
      (mem : m ∈ children) (h : Shows t m) : Shows t (.element tag attributes children)

theorem Shows.inline {m : Markup} (h : Shows t m) {inline : String}
    (found : m.inlineText? = some inline) : Holds inline t := by
  cases h with
  | text h =>
    cases found
    exact h
  | code h =>
    cases found
    exact (h.append_left _).append_right _
  | own | inner => cases found

/-- An opening tag stands on one line, or has each line of its attributes on a line of its own. -/
theorem opening_cases (width : Nat) (indent tag : String) (as : List Attribute) (closing : Bool) :
    opening width indent tag as closing =
        [indent ++ openingLine tag (as.map Attribute.render) (if closing then " />" else ">")] ∨
      opening width indent tag as closing = (indent ++ "<" ++ tag) ::
        (((as.map Attribute.render).flatMap lines).map (indent ++ Script.indentStep ++ ·) ++
          [indent ++ (if closing then "/>" else ">")]) := by
  rw [opening]
  generalize (if closing then " />" else ">") = short
  split
  · exact .inl rfl
  · exact .inr rfl

theorem holds_join {texts : List String} {s : String} (mem : s ∈ texts) (h : Holds s t) :
    Holds (String.join (texts.map (" " ++ ·))) t := by
  rw [Holds, String.toList_join]
  have spaced : Holds (" " ++ s) t := h.append_left " "
  exact spaced.trans (List.infix_of_mem_flatten (List.mem_map_of_mem (List.mem_map_of_mem mem)))

/-- An attribute stands in a line of its opening tag. -/
theorem holds_opening {a : Attribute} {attributes : List Attribute} (piece : Piece t)
    (mem : a ∈ attributes) (h : Holds a.render t) (width : Nat) (indent tag : String)
    (selfClosing : Bool) : ∃ l ∈ opening width indent tag attributes selfClosing, Holds l t := by
  have listed : a.render ∈ attributes.map Attribute.render := List.mem_map_of_mem mem
  rw [opening]
  generalize (if selfClosing then " />" else ">") = ending
  generalize (if selfClosing then "/>" else ">") = last
  split
  · refine ⟨_, List.mem_singleton.2 rfl, Holds.append_left ?_ _⟩
    exact ((holds_join listed h).append_left _).append_right _
  · obtain ⟨l, line, found⟩ := holds_lines piece h
    have broken : l ∈ (attributes.map Attribute.render).flatMap lines :=
      List.mem_flatMap.2 ⟨_, listed, line⟩
    refine ⟨indent ++ Script.indentStep ++ l, ?_, found.append_left _⟩
    exact List.mem_cons_of_mem _ (List.mem_append_left _ (List.mem_map_of_mem broken))

/-- An element on one line: its opening tag, its child, and its closing tag. -/
theorem compact?_cases {width : Nat} {start : List String} {tag line : String} {children : List Markup}
    (h : compact? width start tag children = some line) : ∃ first child inline, start = [first] ∧
      children = [child] ∧ child.inlineText? = some inline ∧ line = first ++ inline ++ "</" ++ tag ++ ">" ∧
      line.length ≤ width := by
  rw [compact?.eq_def] at h
  split at h
  · next first child =>
    obtain ⟨inline, found, h⟩ := Option.bind_eq_some_iff.1 h
    dsimp only at h
    split at h
    · next short =>
      cases h
      exact ⟨first, child, inline, rfl, rfl, found, rfl, short⟩
    · cases h
  · cases h

theorem compact?_holds {width : Nat} {start : List String} {tag line : String}
    {children : List Markup} (h : compact? width start tag children = some line) :
    (∀ l ∈ start, Holds l t → Holds line t) ∧ (∀ m ∈ children, Shows t m → Holds line t) := by
  obtain ⟨first, child, inline, rfl, rfl, found, rfl, -⟩ := compact?_cases h
  simp only [List.mem_singleton, forall_eq]
  exact ⟨fun held => ((held.append_right _).append_right _).append_right _ |>.append_right _,
    fun shown => (((shown.inline found).append_left _).append_right _).append_right _
      |>.append_right _⟩

theorem mem_layouts {width : Nat} {indent l : String} {m : Markup} {ms : List Markup}
    (mem : m ∈ ms) (line : l ∈ layout width indent m) : l ∈ layouts width indent ms := by
  induction ms with
  | nil => cases mem
  | cons m' r ih =>
    rw [layouts]
    obtain rfl | mem := List.mem_cons.1 mem
    · exact List.mem_append_left _ line
    · exact List.mem_append_right _ (ih mem)

/-- What a tree shows stands in a line of its layout. -/
theorem Shows.layout {m : Markup} (piece : Piece t) (h : Shows t m) (width : Nat)
    (indent : String) : ∃ l ∈ m.layout width indent, Holds l t := by
  induction h generalizing indent with
  | text h =>
    rw [Markup.layout]
    exact ⟨_, List.mem_singleton.2 rfl, h.append_left _⟩
  | code h =>
    rw [Markup.layout]
    exact ⟨_, List.mem_singleton.2 rfl, ((h.append_left _).append_right _)⟩
  | @own tag attributes children a mem h =>
    cases children with
    | nil =>
      rw [Markup.layout]
      exact holds_opening piece mem h width indent tag true
    | cons child children =>
      obtain ⟨l, line, found⟩ := holds_opening piece mem h width indent tag false
      rw [Markup.layout]
      split
      · next whole => exact ⟨_, List.mem_singleton.2 rfl, (compact?_holds whole).1 l line found⟩
      · exact ⟨l, List.mem_append_left _ (List.mem_append_left _ line), found⟩
  | @inner tag attributes children m mem h ih =>
    cases children with
    | nil => cases mem
    | cons child children =>
      rw [Markup.layout]
      split
      · next whole => exact ⟨_, List.mem_singleton.2 rfl, (compact?_holds whole).2 m mem h⟩
      · obtain ⟨l, line, found⟩ := ih (indent ++ Script.indentStep)
        exact ⟨l, List.mem_append_left _ (List.mem_append_right _ (mem_layouts mem line)), found⟩

theorem Shows.render {m : Markup} (piece : Piece t) (h : Shows t m) (width depth : Nat) :
    Holds (m.render width depth) t := by
  obtain ⟨l, line, found⟩ := h.layout piece width (Script.indentation depth)
  exact found.intercalate line

/-- A tree is rendered if its indentation can be made. -/
theorem render?_eq_ok {width : Nat} {depth : Int} {m : Markup} {out : String} :
    render? width depth m = .ok out ↔
      checkCopies Script.indentStep.length depth = .ok () ∧ m.render width depth.toNat = out := by
  rw [render?]
  cases checkCopies Script.indentStep.length depth with
  | error f => simp [bind, Except.bind]
  | ok => simp [bind, Except.bind, pure, Except.pure]

theorem render?_eq_error {width : Nat} {depth : Int} {m : Markup} {f : Fault} :
    render? width depth m = .error f ↔ checkCopies Script.indentStep.length depth = .error f := by
  rw [render?]
  cases checkCopies Script.indentStep.length depth with
  | error f' => simp [bind, Except.bind]
  | ok => simp [bind, Except.bind, pure, Except.pure]

end Pagesmith.Markup
