import Pagesmith.Proofs.Markup.Layout
import Pagesmith.Proofs.Script.Angles

/-!
Opening angle brackets in markup. An element brings one with its opening tag and one with its closing tag,
if it has any; what its attributes, texts and code hold comes on top. The layout of the tree does not matter.
-/

namespace Pagesmith.Markup
open Text Script

mutual

/-- How many opening angle brackets the text of a markup tree has. -/
def angles : Markup → Nat
  | text t => Text.angles t
  | code c => Text.angles c
  | element tag attributes children =>
    (if children.isEmpty then 1 else 2) * (1 + Text.angles tag) +
      (attributes.map fun a => Text.angles a.render).sum + anglesAll children

/-- How many opening angle brackets the texts of markup trees have. -/
def anglesAll : List Markup → Nat
  | [] => 0
  | m :: r => angles m + anglesAll r

end

theorem anglesAll_eq (ms : List Markup) : anglesAll ms = (ms.map angles).sum := by
  induction ms with
  | nil => rfl
  | cons m r ih => rw [anglesAll, ih, List.map_cons, List.sum_cons]

variable {width : Nat} {indent tag : String}

section Opening

variable (attributes : List Attribute)

theorem angles_openingLine (texts : List String) {ending : String} (plain : Text.angles ending = 0) :
    Text.angles (openingLine tag texts ending) = 1 + Text.angles tag + (texts.map Text.angles).sum := by
  have space : Text.angles " " = 0 := rfl
  have bracket : Text.angles "<" = 1 := rfl
  simp only [openingLine, angles_append, angles_join, plain, List.map_map, Function.comp_def, space, bracket,
    Nat.zero_add, Nat.add_zero]

/-- Each attribute may go over several lines, which have its brackets together. -/
theorem angles_brokenLines (free : Text.angles indent = 0) (texts : List String) :
    (((texts.flatMap Text.lines).map (indent ++ indentStep ++ ·)).map Text.angles).sum =
      (texts.map Text.angles).sum := by
  have step : Text.angles indentStep = 0 := rfl
  simp only [List.map_map, Function.comp_def, angles_append, free, step, Nat.zero_add, List.map_flatMap]
  rw [List.flatMap, List.sum_flatten, List.map_map]
  exact congrArg List.sum (List.map_congr_left fun s _ => angles_lines s)

theorem angles_opening (free : Text.angles indent = 0) (selfClosing : Bool) :
    ((opening width indent tag attributes selfClosing).map Text.angles).sum =
      1 + Text.angles tag + (attributes.map fun a => Text.angles a.render).sum := by
  have texts : ((attributes.map Attribute.render).map Text.angles).sum =
      (attributes.map fun a => Text.angles a.render).sum := by
    rw [List.map_map]
    rfl
  have closed : Text.angles (if selfClosing then " />" else ">") = 0 := by
    cases selfClosing <;> rfl
  have alone : Text.angles (if selfClosing then "/>" else ">") = 0 := by
    cases selfClosing <;> rfl
  have bracket : Text.angles "<" = 1 := rfl
  rw [opening]
  generalize (if selfClosing then " />" else ">") = ending at closed ⊢
  generalize (if selfClosing then "/>" else ">") = last at alone ⊢
  split
  · simp only [List.map_cons, List.map_nil, List.sum_cons, List.sum_nil, angles_append, free,
      angles_openingLine _ closed, texts, Nat.zero_add, Nat.add_zero]
  · simp only [List.map_cons, List.map_append, List.map_nil, List.sum_cons, List.sum_append, List.sum_nil,
      angles_brokenLines free, angles_append, free, bracket, alone, texts, Nat.zero_add, Nat.add_zero]

end Opening

theorem angles_inlineText? {m : Markup} {inline : String} (h : m.inlineText? = some inline) :
    Text.angles inline = m.angles := by
  cases m with
  | element => cases h
  | text t =>
    cases h
    rw [angles]
  | code c =>
    cases h
    rw [angles]
    simp only [angles_append]
    simp [Text.angles]

theorem angles_compact? {start : List String} {line : String} {children : List Markup}
    (h : compact? width start tag children = some line) :
    Text.angles line = (start.map Text.angles).sum + (1 + Text.angles tag) + anglesAll children := by
  obtain ⟨first, child, inline, rfl, rfl, found, rfl, -⟩ := compact?_cases h
  have frame : Text.angles "</" = 1 ∧ Text.angles ">" = 0 := by decide
  simp only [angles_append, frame, angles_inlineText? found, anglesAll, List.map_cons, List.map_nil,
    List.sum_cons, List.sum_nil]
  omega

mutual

/-- Whatever the width and the indentation are, the lines of a tree have its brackets. -/
theorem angles_layout (width : Nat) {indent : String} (free : Text.angles indent = 0) (m : Markup) :
    ((layout width indent m).map Text.angles).sum = m.angles := by
  match m with
  | text t =>
    rw [layout, angles]
    simp [free]
  | code c =>
    rw [layout, angles]
    simp only [List.map_cons, List.map_nil, List.sum_cons, List.sum_nil, angles_append, free]
    simp [Text.angles]
  | element tag attributes [] =>
    rw [layout, angles, angles_opening attributes free]
    simp [anglesAll]
  | element tag attributes (child :: children) =>
    have start : ((opening width indent tag attributes false).map Text.angles).sum = _ :=
      angles_opening attributes free false
    have deeper : Text.angles (indent ++ indentStep) = 0 := by
      rw [angles_append, free]
      rfl
    have inner := angles_layouts width deeper (child :: children)
    have frame : Text.angles "</" = 1 ∧ Text.angles ">" = 0 := by decide
    rw [layout, angles]
    simp only [List.isEmpty_cons, Bool.false_eq_true, if_false]
    split
    · next line whole =>
      simp only [List.map_cons, List.map_nil, List.sum_cons, List.sum_nil, angles_compact? whole, start]
      omega
    · simp only [List.map_append, List.sum_append, start, inner, List.map_cons, List.map_nil, List.sum_cons,
        List.sum_nil, angles_append, free, frame]
      omega

theorem angles_layouts (width : Nat) {indent : String} (free : Text.angles indent = 0) (ms : List Markup) :
    ((layouts width indent ms).map Text.angles).sum = anglesAll ms := by
  match ms with
  | [] => rfl
  | m :: r =>
    rw [layouts, anglesAll, List.map_append, List.sum_append, angles_layout width free m,
      angles_layouts width free r]

end

theorem angles_render (width depth : Nat) (m : Markup) : Text.angles (m.render width depth) = m.angles := by
  rw [render, angles_unlines]
  exact angles_layout width (angles_indentation depth) m

section Literals

theorem angles_code (name code : String) :
    Text.angles (Attribute.render ⟨name, .code code⟩) = Text.angles name + Text.angles code := by
  simp only [Attribute.render, angles_append]
  simp [Text.angles]

/-- A literal in an attribute brings no bracket. -/
theorem literalAttribute_angles (name : String) (v : Value) :
    (literalAttribute name v).Yields fun a => Text.angles a.render = Text.angles name := by
  have coded (v : Value) : Job.Yields (do return (⟨name, .code (← literal v)⟩ : Attribute))
      fun a => Text.angles a.render = Text.angles name :=
    .bind (literal_angles v) fun s free => .pure (by rw [angles_code, free, Nat.add_zero])
  cases v with
  | str s =>
    refine .pure ?_
    rw [textAttribute]
    split
    · rw [angles_code, angles_stringLiteral, Nat.add_zero]
    · next inert =>
      have free : Text.angles s = 0 := by
        refine angles_free fun mem => inert (List.any_eq_true.2 ⟨_, mem, ?_⟩)
        decide
      simp only [Attribute.render, angles_append, free]
      simp [Text.angles]
  | _ => exact coded _

theorem angles_textChild (s : String) : (textChild s).angles = 0 := by
  rw [textChild]
  split
  · next inert =>
    simp only [Bool.and_eq_true, Bool.not_eq_true', List.any_eq_false] at inert
    rw [angles]
    exact angles_free fun mem => inert.2 _ mem (by decide)
  · rw [angles, angles_stringLiteral]

/-- A literal as a child brings no bracket; only a blank one is left out. -/
theorem literalChild_angles (v : Value) : (literalChild v).Yields fun c =>
    (c.isSome = !v.isBlank) ∧ ∀ m ∈ c, m.angles = 0 := by
  have coded (v : Value) : Job.Yields (do return some (code (← literal v)))
      fun c => (c.isSome = true) ∧ ∀ m ∈ c, m.angles = 0 := by
    refine .bind (literal_angles v) fun s free => .pure ⟨rfl, ?_⟩
    rintro _ ⟨⟩
    rwa [angles]
  cases v with
  | null => exact .pure ⟨rfl, by simp⟩
  | str s =>
    refine .pure ?_
    split
    · next empty => exact ⟨by simpa [Value.isBlank] using empty, by simp⟩
    · next given =>
      refine ⟨by simpa [Value.isBlank] using given, ?_⟩
      rintro _ ⟨⟩
      exact angles_textChild s
  | _ => exact coded _

end Literals

end Pagesmith.Markup
