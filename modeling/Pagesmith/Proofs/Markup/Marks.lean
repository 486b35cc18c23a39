import Pagesmith.Proofs.Markup.Layout
import Mathlib.Data.List.Forall2

/-!
The marks of a markup tree: its opening tags, its texts and pieces of code, and its closing tags, in the
order of the document. A layout writes one mark after the other, on lines of their own or behind each other;
so the width and the indentation settle where white space stands, and nothing else.
-/

namespace Pagesmith

namespace Text

/-- The characters of a text that are not blank. -/
def ink (cs : List Char) : List Char := cs.filter fun c => !isBlank c

theorem ink_append (cs ds : List Char) : ink (cs ++ ds) = ink cs ++ ink ds := List.filter_append cs ds

theorem ink_blank {cs : List Char} (h : ∀ c ∈ cs, isBlank c = true) : ink cs = [] :=
  List.filter_eq_nil_iff.2 fun c mem => by simp [h c mem]

theorem ink_cons_blank {c : Char} (h : isBlank c = true) (cs : List Char) : ink (c :: cs) = ink cs := by
  simp [ink, h]

theorem ink_flatten (css : List (List Char)) : ink css.flatten = css.flatMap ink := by
  rw [ink, List.filter_flatten]
  rfl

theorem ink_flatMap {α : Type} (f : α → List Char) (xs : List α) :
    ink (xs.flatMap f) = xs.flatMap fun x => ink (f x) := by
  rw [List.flatMap, ink_flatten, List.flatMap_map]

theorem ink_lineEnd {c : Char} (h : isLineEnd c = true) (cs : List Char) : ink (c :: cs) = ink cs :=
  ink_cons_blank (isBlank_lineEnd h) cs

/-- Cutting a text into lines takes blanks away only. -/
theorem ink_splitLines (cs : List Char) : (splitLines cs).flatMap ink = ink cs := by
  -- A carriage return and a line feed end one line together, so a step may go two characters on.
  induction n : cs.length using Nat.strong_induction_on generalizing cs with
  | _ n ih =>
    subst n
    match cs with
    | [] => rfl
    | c :: r =>
      by_cases ends : isLineEnd c = true
      · obtain ⟨s, rest, lines⟩ := splitLines_end ends r
        have same : ink s = ink r ∧ s.length < (c :: r).length := by
          obtain rfl | rfl := rest
          · exact ⟨rfl, by simp⟩
          · exact ⟨(ink_lineEnd rfl s).symm, by simp only [List.length_cons]; omega⟩
        rw [lines, List.flatMap_cons, ih s.length same.2 s rfl, same.1, ink_lineEnd ends]
        rfl
      · have rest := ih r.length (by simp) r rfl
        have first (l : List Char) : ink (c :: l) = ink [c] ++ ink l := ink_append [c] l
        rw [splitLines_plain (by simpa using ends), first r, ← rest]
        cases splitLines r with
        | nil => rfl
        | cons l ls => rw [List.flatMap_cons, List.flatMap_cons, first l, List.append_assoc]

theorem ink_lines (s : String) : ((lines s).flatMap fun l => ink l.toList) = ink s.toList := by
  rw [lines, List.flatMap_map, ← ink_splitLines]
  exact List.flatMap_congr fun l _ => by rw [String.toList_ofList]

/-- A line of a text, with the line feed in front of it. -/
def fed (l : String) : List Char := '\n' :: l.toList

theorem unlines_fed {ls : List String} (given : ls ≠ []) : '\n' :: (unlines ls).toList = ls.flatMap fed := by
  obtain ⟨l, r, rfl⟩ := List.exists_cons_of_ne_nil given
  rw [unlines_cons]
  rfl

theorem ink_fed (l : String) : ink (fed l) = ink l.toList := ink_lineEnd rfl l.toList

end Text

namespace Script
open Text

theorem blank_indentation (n : Nat) : ∀ c ∈ (indentation n).toList, isBlank c = true := by
  intro c mem
  rw [indentation, String.toList_ofList] at mem
  rw [List.eq_of_mem_replicate mem]
  decide

theorem ink_indentation (n : Nat) (s : String) : ink (indentation n ++ s).toList = ink s.toList := by
  rw [String.toList_append, ink_append, ink_blank (blank_indentation n)]
  rfl

theorem indentation_step (n : Nat) : indentation n ++ indentStep = indentation (n + 1) := by
  have step : indentStep.toList = List.replicate 2 ' ' := rfl
  rw [← String.toList_inj, String.toList_append, indentation, indentation, String.toList_ofList,
    String.toList_ofList, step, List.replicate_append_replicate]
  rfl

end Script

namespace Markup
open Text Script

/-- What stands in the text of a markup tree, one after the other. -/
inductive Mark where
  /-- An opening tag, which closes its element if it has no children. -/
  | opening (tag : String) (attributes : List Attribute) (selfClosing : Bool)
  /-- A text, or code in braces. -/
  | child (text : String)
  | closing (tag : String)

mutual

/-- The marks of a tree with `depth` elements around it, each with the number of elements around it. -/
def marks (depth : Nat) : Markup → List (Nat × Mark)
  | text t => [(depth, .child t)]
  | code c => [(depth, .child ("\x7b" ++ c ++ "\x7d"))]
  | element tag attributes [] => [(depth, .opening tag attributes true)]
  | element tag attributes (child :: children) =>
    (depth, .opening tag attributes false) :: marksAll (depth + 1) (child :: children) ++
      [(depth, .closing tag)]

/-- The marks of several trees with `depth` elements around them. -/
def marksAll (depth : Nat) : List Markup → List (Nat × Mark)
  | [] => []
  | m :: r => marks depth m ++ marksAll depth r

end

/-- What is written for a mark if the outermost element is indented by `base` steps: a child or a closing
tag stands on a line of its own, or goes on in the line before it. -/
inductive Stands (width base : Nat) : Nat × Mark → List Char → Prop
  | opening {depth : Nat} {tag : String} {attributes : List Attribute} {selfClosing : Bool} :
      Stands width base (depth, .opening tag attributes selfClosing)
        ((Markup.opening width (indentation (base + depth)) tag attributes selfClosing).flatMap fed)
  | childBelow {depth : Nat} {t : String} :
      Stands width base (depth, .child t) (fed (indentation (base + depth) ++ t))
  | childInside {depth : Nat} {t : String} : Stands width base (depth, .child t) t.toList
  | closingBelow {depth : Nat} {tag : String} :
      Stands width base (depth, .closing tag) (fed (indentation (base + depth) ++ "</" ++ tag ++ ">"))
  | closingInside {depth : Nat} {tag : String} :
      Stands width base (depth, .closing tag) ("</" ++ tag ++ ">").toList

/-- The lines write the marks, one after the other. -/
def WritesMarks (width base : Nat) (lines : List String) (ms : List (Nat × Mark)) : Prop :=
  ∃ chunks, lines.flatMap fed = chunks.flatten ∧ List.Forall₂ (Stands width base) ms chunks

variable {width base depth : Nat}

theorem WritesMarks.append {ls ls' : List String} {ms ms' : List (Nat × Mark)}
    (h : WritesMarks width base ls ms) (h' : WritesMarks width base ls' ms') :
    WritesMarks width base (ls ++ ls') (ms ++ ms') := by
  obtain ⟨chunks, text, stand⟩ := h
  obtain ⟨chunks', text', stand'⟩ := h'
  refine ⟨chunks ++ chunks', ?_, List.rel_append stand stand'⟩
  rw [List.flatMap_append, text, text', List.flatten_append]

theorem WritesMarks.one {ls : List String} {m : Nat × Mark} (h : Stands width base m (ls.flatMap fed)) :
    WritesMarks width base ls [m] :=
  ⟨[ls.flatMap fed], by simp, .cons h .nil⟩

theorem WritesMarks.line {l : String} {m : Nat × Mark} (h : Stands width base m (fed l)) :
    WritesMarks width base [l] [m] :=
  .one (by simpa using h)

/-- A child that stands in the line of the tags around it is no element. -/
theorem marks_inline {m : Markup} {inline : String} (h : m.inlineText? = some inline) (depth : Nat) :
    m.marks depth = [(depth, .child inline)] := by
  cases m with
  | element => cases h
  | text t =>
    cases h
    rw [marks]
  | code c =>
    cases h
    rw [marks]

mutual

theorem layout_marks (width base depth : Nat) (m : Markup) :
    WritesMarks width base (layout width (indentation (base + depth)) m) (m.marks depth) := by
  match m with
  | text t =>
    rw [layout, marks]
    exact .line .childBelow
  | code c =>
    rw [layout, marks]
    have line : WritesMarks width base [indentation (base + depth) ++ ("\x7b" ++ c ++ "\x7d")]
        [(depth, .child ("\x7b" ++ c ++ "\x7d"))] := .line .childBelow
    simpa only [String.append_assoc] using line
  | element tag attributes [] =>
    rw [layout, marks]
    exact .one .opening
  | element tag attributes (child :: children) =>
    rw [layout, marks]
    split
    · next line whole =>
      obtain ⟨first, child', inline, start, alone, found, rfl, -⟩ := compact?_cases whole
      obtain ⟨rfl, rfl⟩ := List.cons.inj alone
      rw [marksAll, marksAll, marks_inline found, List.append_nil]
      refine ⟨[fed first, inline.toList, ("</" ++ tag ++ ">").toList], by simp [fed], ?_⟩
      refine .cons ?_ (.cons .childInside (.cons .closingInside .nil))
      have opening : Stands width base (depth, .opening tag attributes false)
          ((Markup.opening width (indentation (base + depth)) tag attributes false).flatMap fed) := .opening
      rw [start] at opening
      simpa using opening
    · rw [indentation_step]
      exact (WritesMarks.append (.one .opening) (layouts_marks width base (depth + 1) _)).append
        (.line .closingBelow)

theorem layouts_marks (width base depth : Nat) (ms : List Markup) :
    WritesMarks width base (layouts width (indentation (base + depth)) ms) (marksAll depth ms) := by
  match ms with
  | [] =>
    rw [layouts, marksAll]
    exact ⟨[], rfl, .nil⟩
  | m :: r =>
    rw [layouts, marksAll]
    exact (layout_marks width base depth m).append (layouts_marks width base depth r)

end

section Tokens

/-- A part of a mark. Attributes have to be told apart from what stands in front of them. -/
structure Token where
  text : String
  apart : Bool

def Mark.tokens : Mark → List Token
  | opening tag attributes selfClosing =>
    ⟨"<" ++ tag, false⟩ :: attributes.map (fun a => ⟨a.render, true⟩) ++
      [⟨if selfClosing then "/>" else ">", false⟩]
  | child t => [⟨t, false⟩]
  | closing tag => [⟨"</" ++ tag ++ ">", false⟩]

/-- What a tree has in its text, in the order of the document: the start of a tag, its attributes and its
end, the children, and the closing tag. -/
def tokens (m : Markup) : List Token := (m.marks 0).flatMap fun e => e.2.tokens

/-- The characters of a token, blanks aside. If it has to be told apart and is not all blank, they come
behind a blank. -/
structure Token.Written (t : Token) (cs : List Char) : Prop where
  ink : ink cs = ink t.text.toList
  apart : t.apart = true → Text.ink t.text.toList ≠ [] → ∃ b r, cs = b :: r ∧ isBlank b = true

/-- The text is written token by token. -/
def WritesTokens (cs : List Char) (ts : List Token) : Prop :=
  ∃ chunks : List (List Char), cs = chunks.flatten ∧ List.Forall₂ Token.Written ts chunks

theorem WritesTokens.append {cs cs' : List Char} {ts ts' : List Token} (h : WritesTokens cs ts)
    (h' : WritesTokens cs' ts') : WritesTokens (cs ++ cs') (ts ++ ts') := by
  obtain ⟨chunks, text, written⟩ := h
  obtain ⟨chunks', text', written'⟩ := h'
  exact ⟨chunks ++ chunks', by rw [text, text', List.flatten_append], List.rel_append written written'⟩

theorem WritesTokens.one {cs : List Char} {t : Token} (h : t.Written cs) : WritesTokens cs [t] :=
  ⟨[cs], by simp, .cons h .nil⟩

/-- A token that need not be told apart is written with any blanks around it. -/
theorem WritesTokens.near {cs : List Char} {t : String} (h : ink cs = ink t.toList) :
    WritesTokens cs [⟨t, false⟩] :=
  .one ⟨h, fun apart => nomatch apart⟩

theorem WritesTokens.flatMap {α : Type} {f : α → List Char} {g : α → Token} {xs : List α}
    (h : ∀ x ∈ xs, (g x).Written (f x)) : WritesTokens (xs.flatMap f) (xs.map g) := by
  induction xs with
  | nil => exact ⟨[], rfl, .nil⟩
  | cons x r ih =>
    obtain ⟨first, rest⟩ := List.forall_mem_cons.1 h
    exact (WritesTokens.one first).append (ih rest)

/-- The ink of a text that is written token by token is that of its tokens. -/
theorem WritesTokens.ink_eq {cs : List Char} {ts : List Token} (h : WritesTokens cs ts) :
    ink cs = ink (ts.flatMap fun t => t.text.toList) := by
  obtain ⟨chunks, rfl, written⟩ := h
  rw [ink_flatten, ink_flatMap]
  induction written with
  | nil => rfl
  | cons first _ ih => rw [List.flatMap_cons, List.flatMap_cons, ih, first.ink]

/-- A line feed in front of the first token belongs to no token. -/
theorem WritesTokens.tail {b : Char} {cs : List Char} {t : String} {ts : List Token} (blank : isBlank b = true)
    (h : WritesTokens (b :: cs) (⟨t, false⟩ :: ts)) (inked : ink t.toList ≠ []) :
    WritesTokens cs (⟨t, false⟩ :: ts) := by
  obtain ⟨chunks, text, written⟩ := h
  cases written with
  | @cons _ first _ rest here there =>
    cases first with
    | nil => exact absurd here.ink.symm inked
    | cons c r =>
      obtain ⟨rfl, rfl⟩ := List.cons.inj text
      refine ⟨r :: rest, rfl, .cons ⟨?_, fun apart => nomatch apart⟩ there⟩
      rw [← here.ink, ink_cons_blank blank]

theorem ink_indented (depth : Nat) (s : String) : ink (fed (indentation depth ++ s)) = ink s.toList := by
  rw [ink_fed, ink_indentation]

/-- On one line or on several, an opening tag is written token by token. -/
theorem opening_tokens (width depth : Nat) (tag : String) (attributes : List Attribute) (selfClosing : Bool) :
    WritesTokens ((opening width (indentation depth) tag attributes selfClosing).flatMap fed)
      (Mark.opening tag attributes selfClosing).tokens := by
  have start : WritesTokens (fed (indentation depth ++ "<" ++ tag)) [⟨"<" ++ tag, false⟩] := by
    rw [String.append_assoc]
    exact .near (ink_indented depth _)
  rw [Mark.tokens]
  obtain one | several := opening_cases width (indentation depth) tag attributes selfClosing
  · have text : (opening width (indentation depth) tag attributes selfClosing).flatMap fed =
        fed (indentation depth ++ "<" ++ tag) ++ (attributes.flatMap fun a => ' ' :: a.render.toList) ++
          (if selfClosing then " />" else ">").toList := by
      rw [one]
      simp [fed, openingLine, String.toList_join, List.flatMap_map]
    have spaced : WritesTokens (attributes.flatMap fun a => ' ' :: a.render.toList)
        (attributes.map fun a => ⟨a.render, true⟩) :=
      .flatMap fun a _ => ⟨ink_cons_blank rfl _, fun _ _ => ⟨' ', _, rfl, rfl⟩⟩
    have last : ink (if selfClosing then " />" else ">").toList = ink (if selfClosing then "/>" else ">").toList := by
      cases selfClosing <;> rfl
    rw [text]
    exact (start.append spaced).append (.near last)
  · have text : (opening width (indentation depth) tag attributes selfClosing).flatMap fed =
        fed (indentation depth ++ "<" ++ tag) ++
          (attributes.flatMap fun a => (lines a.render).flatMap fun l =>
            fed (indentation depth ++ indentStep ++ l)) ++
          fed (indentation depth ++ if selfClosing then "/>" else ">") := by
      rw [several]
      simp [List.flatMap_map, List.flatMap_assoc]
    have spaced : WritesTokens (attributes.flatMap fun a => (lines a.render).flatMap fun l =>
        fed (indentation depth ++ indentStep ++ l)) (attributes.map fun a => ⟨a.render, true⟩) := by
      refine .flatMap fun a _ => ⟨?_, fun _ inked => ?_⟩
      · rw [ink_flatMap, ← ink_lines]
        exact List.flatMap_congr fun l _ => by rw [indentation_step, ink_indented]
      · -- an attribute that is not all blank has a line, which starts with its line feed
        cases broken : lines a.render with
        | nil =>
          rw [← ink_lines, broken] at inked
          exact absurd rfl inked
        | cons l r => exact ⟨'\n', _, rfl, rfl⟩
    rw [text]
    exact (start.append spaced).append (.near (ink_indented depth _))

theorem Stands.tokens {e : Nat × Mark} {cs : List Char} (h : Stands width base e cs) :
    WritesTokens cs e.2.tokens := by
  cases h with
  | opening => exact opening_tokens ..
  | childBelow =>
    rw [Mark.tokens]
    exact .near (ink_indented _ _)
  | childInside | closingInside =>
    rw [Mark.tokens]
    exact .near rfl
  | @closingBelow depth tag =>
    rw [Mark.tokens]
    refine .near ?_
    rw [← ink_indented (base + depth)]
    simp only [String.append_assoc]

theorem WritesMarks.tokens {ls : List String} {ms : List (Nat × Mark)} (h : WritesMarks width base ls ms) :
    WritesTokens (ls.flatMap fed) (ms.flatMap fun e => e.2.tokens) := by
  obtain ⟨chunks, text, stand⟩ := h
  rw [text]
  clear text
  induction stand with
  | nil => exact ⟨[], rfl, .nil⟩
  | cons first _ ih => exact first.tokens.append ih

/-- An element starts with its tag. -/
theorem tokens_element (tag : String) (attributes : List Attribute) (children : List Markup) :
    ∃ r, (element tag attributes children).tokens = ⟨"<" ++ tag, false⟩ :: r := by
  cases children with
  | nil =>
    rw [tokens, marks]
    exact ⟨_, rfl⟩
  | cons child children =>
    rw [tokens, marks]
    exact ⟨_, rfl⟩

theorem layout_ne_nil (width : Nat) (indent : String) (m : Markup) : layout width indent m ≠ [] := by
  match m with
  | text _ | code _ => simp [layout]
  | element tag attributes [] =>
    rw [layout]
    obtain one | several := opening_cases width indent tag attributes true
    · simp [one]
    · simp [several]
  | element tag attributes (child :: children) =>
    rw [layout]
    split <;> simp

theorem render_tokens (width depth : Nat) (tag : String) (attributes : List Attribute)
    (children : List Markup) : WritesTokens (render width depth (element tag attributes children)).toList
      (element tag attributes children).tokens := by
  have written := (layout_marks width depth 0 (element tag attributes children)).tokens
  rw [← unlines_fed (layout_ne_nil _ _ _)] at written
  change WritesTokens _ (element tag attributes children).tokens at written
  obtain ⟨r, start⟩ := tokens_element tag attributes children
  rw [start] at written ⊢
  have bracket : ink ("<" ++ tag).toList = '<' :: ink tag.toList := by
    rw [String.toList_append, ink_append]
    rfl
  refine written.tail rfl ?_
  rw [bracket]
  exact List.cons_ne_nil _ _

/-- Only elements cannot stand between the tags of an element on its line. -/
theorem inlineText?_eq_none {m : Markup} (h : m.inlineText? = none) :
    ∃ tag attributes children, m = element tag attributes children := by
  cases m with
  | element tag attributes children => exact ⟨tag, attributes, children, rfl⟩
  | text | code => cases h

/-- An element is rendered unless its indentation cannot be made; that a child has no text to go on with in
the line is met with at elements only. The tokens are written in the order of the document, whatever stands in
them, with white space in front of each attribute that is not all blank; so two widths and indentations give
texts that differ in white space only. -/
theorem layout_keeps_tokens (width : Nat) (depth : Int) (tag : String) (attributes : List Attribute)
    (children : List Markup) :
    (∀ m : Markup, m.inlineText? = none → ∃ tag attributes children, m = element tag attributes children) ∧
    match render? width depth (element tag attributes children) with
      | .error f => checkCopies indentStep.length depth = .error f
      | .ok out => WritesTokens out.toList (element tag attributes children).tokens ∧
          ink out.toList = ink ((element tag attributes children).tokens.flatMap fun t => t.text.toList) ∧
          ∀ width' depth' out', render? width' depth' (element tag attributes children) = .ok out' →
            ink out'.toList = ink out.toList := by
  have rendered {width : Nat} {depth : Int} {out : String}
      (done : render? width depth (element tag attributes children) = .ok out) :
      WritesTokens out.toList (element tag attributes children).tokens := by
    obtain ⟨-, rfl⟩ := render?_eq_ok.1 done
    exact render_tokens ..
  refine ⟨fun m => inlineText?_eq_none, ?_⟩
  cases done : render? width depth (element tag attributes children) with
  | error f => exact render?_eq_error.1 done
  | ok out =>
    have written := rendered done
    refine ⟨written, written.ink_eq, fun width' depth' out' done' => ?_⟩
    rw [(rendered done').ink_eq, written.ink_eq]

end Tokens

end Markup

end Pagesmith
