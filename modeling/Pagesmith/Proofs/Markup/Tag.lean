import Pagesmith.Proofs.Markup.Braces
import Pagesmith.Proofs.Markup.Layout

/-!
Opening tags, read back: after the tag attributes with white space in front of each, a name alone or with a quoted
text or braced code behind it. An element is written with the names of its attributes as they are, so it is read
back exactly if they are names; and a tag that goes over several lines is read back only if none of them is taken
for the end of a line.
-/

namespace Pagesmith

/-- What an attribute has behind its name. -/
def AttributeBody.text : AttributeBody → String
  | .bare => ""
  | .quoted t => "=\"" ++ t ++ "\""
  | .code c => "=\x7b" ++ c ++ "\x7d"

/-- A quoted text without a quote, or code that is closed. -/
def AttributeBody.IsClosed : AttributeBody → Prop
  | .bare => True
  | .quoted t => '"' ∉ t.toList
  | .code c => Markup.IsClosed c

/-- Nothing behind the name of the attribute is taken for the end of a line. -/
def Attribute.IsUnbroken (a : Attribute) : Prop := ∀ c ∈ a.body.text.toList, Text.isLineEnd c = false

/-- What stands behind the name of the attribute goes on to its end, and holds no line feed. -/
structure Attribute.Fits (a : Attribute) : Prop where
  closed : a.body.IsClosed
  feedless : '\n' ∉ a.body.text.toList

theorem Attribute.render_eq (a : Attribute) : a.render = a.name ++ a.body.text := by
  rw [render]
  split
  · next bare => rw [bare, AttributeBody.text, String.append_empty]
  · next t quoted =>
    rw [quoted, AttributeBody.text]
    simp only [String.append_assoc]
  · next c code =>
    rw [code, AttributeBody.text]
    simp only [String.append_assoc]

namespace Markup
open Text

section Reader

/-- A character at which a name ends. -/
def endsName (c : Char) : Bool := isBlank c || c == '=' || c == '/' || c == '>'

/-- What stands behind the name of an attribute. -/
def readBody (l : List Char) : Option (AttributeBody × List Char) :=
  match l with
  | '=' :: '"' :: r => match r.dropWhile (· != '"') with
    | [] => none
    | _ :: rest => some (.quoted (String.ofList (r.takeWhile (· != '"'))), rest)
  | '=' :: '\x7b' :: r =>
    (readCode (.code 0) r).map fun (inner, rest) => (.code (String.ofList inner), rest)
  | '=' :: _ => none
  | _ => some (.bare, l)

variable (isName : String → Bool)

def readAttribute (l : List Char) : Option (Attribute × List Char) :=
  let name := String.ofList (l.takeWhile fun c => !endsName c)
  if name != "" && isName name then
    (readBody (l.dropWhile fun c => !endsName c)).map fun (body, rest) => (⟨name, body⟩, rest)
  else none

/-- The name can be read where nothing of it goes on. -/
structure IsAttributeName (name : String) : Prop where
  given : name ≠ ""
  known : isName name = true
  whole : ∀ c ∈ name.toList, endsName c = false

variable {isName} {l r : List Char}

theorem readBody_eq {body : AttributeBody} (h : readBody l = some (body, r)) : l = body.text.toList ++ r := by
  rw [readBody.eq_def] at h
  split at h
  · next q =>
    split at h
    · cases h
    · next d rest found =>
      obtain ⟨rfl, rfl⟩ := Prod.mk.inj (Option.some.inj h)
      have quote : d = '"' := by
        have stop := List.head?_dropWhile_not (fun c => c != '"') q
        rw [found] at stop
        simpa using stop
      have whole := List.takeWhile_append_dropWhile (p := (· != '"')) (l := q)
      rw [found, quote] at whole
      simp [AttributeBody.text, whole]
  · next q =>
    obtain ⟨⟨inner, rest⟩, read, same⟩ := Option.map_eq_some_iff.1 h
    obtain ⟨rfl, rfl⟩ := Prod.mk.inj same
    simp [AttributeBody.text, readCode_eq read]
  · cases h
  · obtain ⟨rfl, rfl⟩ := Prod.mk.inj (Option.some.inj h)
    rfl

theorem readAttribute_eq {a : Attribute} (h : readAttribute isName l = some (a, r)) :
    IsAttributeName isName a.name ∧ l = a.render.toList ++ r := by
  simp only [readAttribute] at h
  split at h
  · next named =>
    simp only [Bool.and_eq_true, bne_iff_ne] at named
    obtain ⟨⟨body, rest⟩, read, same⟩ := Option.map_eq_some_iff.1 h
    obtain ⟨rfl, rfl⟩ := Prod.mk.inj same
    refine ⟨⟨named.1, named.2, fun c mem => ?_⟩, ?_⟩
    · rw [String.toList_ofList] at mem
      simpa using List.mem_takeWhile_imp mem
    · have whole := List.takeWhile_append_dropWhile (p := fun c => !endsName c) (l := l)
      rw [Attribute.render_eq, String.toList_append, String.toList_ofList, List.append_assoc, ← readBody_eq read,
        whole]
  · cases h

theorem readAttribute_length {a : Attribute} (h : readAttribute isName l = some (a, r)) : r.length ≤ l.length := by
  have shown := congrArg List.length (readAttribute_eq h).2
  rw [List.length_append] at shown
  omega

/-- How a tag ends. -/
def ending (closing : Bool) : List Char := (if closing then "/>" else ">").toList

/-- The end of a tag, and what stands behind it. -/
def readEnd : List Char → Option (Bool × List Char)
  | '/' :: '>' :: r => some (true, r)
  | '>' :: r => some (false, r)
  | _ => none

variable (isName) in
/-- The attributes of a tag, whether it closes its element, and what stands behind it. -/
def readAttributes (l : List Char) : Option (List Attribute × Bool × List Char) :=
  match readEnd (l.dropWhile isBlank) with
  | some (closing, rest) => some ([], closing, rest)
  | none =>
    if spaced : (l.dropWhile isBlank).length < l.length then
      match read : readAttribute isName (l.dropWhile isBlank) with
      | none => none
      | some (a, r) =>
        have : r.length < l.length := (readAttribute_length read).trans_lt spaced
        (readAttributes r).map fun (as, rest) => (a :: as, rest)
    else none
termination_by l.length

theorem readAttributes_end {closing : Bool} (h : readEnd (l.dropWhile isBlank) = some (closing, r)) :
    readAttributes isName l = some ([], closing, r) := by
  rw [readAttributes, h]

theorem readAttributes_more {a : Attribute} (more : readEnd (l.dropWhile isBlank) = none)
    (spaced : (l.dropWhile isBlank).length < l.length)
    (read : readAttribute isName (l.dropWhile isBlank) = some (a, r)) :
    readAttributes isName l = (readAttributes isName r).map fun (as, rest) => (a :: as, rest) := by
  rw [readAttributes, more]
  dsimp only
  rw [dif_pos spaced]
  split
  · next none =>
    rw [read] at none
    cases none
  · next found =>
    rw [read] at found
    obtain ⟨rfl, rfl⟩ := Prod.mk.inj (Option.some.inj found)
    rfl

variable (isName) in
/-- The opening tag of an element, after white space. -/
def readTag (tag : String) (l : List Char) : Option (List Attribute × Bool × List Char) :=
  ((l.dropWhile isBlank).dropPrefix? ("<" ++ tag).toList).bind (readAttributes isName)

theorem readEnd_eq {closing : Bool} (h : readEnd l = some (closing, r)) : l = ending closing ++ r := by
  rw [readEnd.eq_def] at h
  split at h
  · obtain ⟨rfl, rfl⟩ := Prod.mk.inj (Option.some.inj h)
    rfl
  · obtain ⟨rfl, rfl⟩ := Prod.mk.inj (Option.some.inj h)
    rfl
  · cases h

/-- What is read are attributes with names, and they stand in the text in front of what is left. -/
theorem readAttributes_eq {as : List Attribute} {closing : Bool} {rest : List Char}
    (h : readAttributes isName l = some (as, closing, rest)) :
    ∃ front, l = front ++ rest ∧ ∀ a ∈ as, IsAttributeName isName a.name ∧ a.render.toList <:+: front := by
  induction n : l.length using Nat.strong_induction_on generalizing l as with
  | _ n ih =>
    subst n
    have blank := List.takeWhile_append_dropWhile (p := isBlank) (l := l)
    rw [readAttributes] at h
    split at h
    · next closing' rest' ends =>
      simp only [Option.some.injEq, Prod.mk.injEq] at h
      obtain ⟨rfl, rfl, rfl⟩ := h
      refine ⟨l.takeWhile isBlank ++ ending closing', ?_, by simp⟩
      rw [List.append_assoc, ← readEnd_eq ends, blank]
    · split at h
      · next spaced =>
        split at h
        · cases h
        · next a r read =>
          obtain ⟨⟨as', closing', rest'⟩, found, same⟩ := Option.map_eq_some_iff.1 h
          simp only [Prod.mk.injEq] at same
          obtain ⟨rfl, rfl, rfl⟩ := same
          obtain ⟨name, text⟩ := readAttribute_eq read
          obtain ⟨front, left, names⟩ := ih r.length ((readAttribute_length read).trans_lt spaced) found rfl
          refine ⟨l.takeWhile isBlank ++ a.render.toList ++ front, ?_, List.forall_mem_cons.2 ⟨⟨name, ?_⟩, ?_⟩⟩
          · rw [List.append_assoc, ← left, List.append_assoc, ← text, blank]
          · exact ⟨l.takeWhile isBlank, front, rfl⟩
          · exact fun b mem => ⟨(names b mem).1, (names b mem).2.trans (List.suffix_append _ _).isInfix⟩
      · cases h

end Reader

section Writing

variable {isName : String → Bool} {rest : List Char}

theorem readBody_written {body : AttributeBody} (closed : body.IsClosed) (stop : ∀ c ∈ rest.head?, c ≠ '=') :
    readBody (body.text.toList ++ rest) = some (body, rest) := by
  cases body with
  | bare =>
    change readBody rest = _
    rw [readBody.eq_def]
    split
    · exact absurd rfl (stop '=' rfl)
    · exact absurd rfl (stop '=' rfl)
    · exact absurd rfl (stop '=' rfl)
    · rfl
  | quoted t =>
    have front : ∀ c ∈ t.toList, (c != '"') = true := fun c mem =>
      bne_iff_ne.2 fun same => closed (same ▸ mem)
    have text : (AttributeBody.quoted t).text.toList ++ rest = '=' :: '"' :: (t.toList ++ '"' :: rest) := by
      simp [AttributeBody.text]
    rw [text, readBody, List.dropWhile_append_of_pos front, List.takeWhile_append_of_pos front]
    simp
  | code c =>
    have text : (AttributeBody.code c).text.toList ++ rest = '=' :: '\x7b' :: (c.toList ++ '\x7d' :: rest) := by
      simp [AttributeBody.text]
    rw [text, readBody, (closed 0).readCode]
    simp

theorem readAttribute_written {a : Attribute} (name : IsAttributeName isName a.name) (closed : a.body.IsClosed)
    (stop : ∀ c ∈ rest.head?, endsName c = true ∧ c ≠ '=') :
    readAttribute isName (a.render.toList ++ rest) = some (a, rest) := by
  have letters : ∀ c ∈ a.name.toList, (!endsName c) = true := fun c mem => by simp [name.whole c mem]
  have behind : ∀ c ∈ (a.body.text.toList ++ rest).head?, (!endsName c) = false := by
    cases a.body with
    | bare => exact fun c mem => by simp [(stop c mem).1]
    | quoted | code =>
      intro c mem
      obtain rfl : '=' = c := by simpa [AttributeBody.text] using mem
      rfl
  have front : (a.body.text.toList ++ rest).takeWhile (fun c => !endsName c) = [] := by
    cases text : a.body.text.toList ++ rest with
    | nil => rfl
    | cons c r => rw [List.takeWhile_cons, behind c (by rw [text]; rfl), if_neg Bool.false_ne_true]
  have back : (a.body.text.toList ++ rest).dropWhile (fun c => !endsName c) = a.body.text.toList ++ rest := by
    cases text : a.body.text.toList ++ rest with
    | nil => rfl
    | cons c r => rw [List.dropWhile_cons, behind c (by rw [text]; rfl), if_neg Bool.false_ne_true]
  have known : (a.name != "" && isName a.name) = true := by
    rw [name.known, Bool.and_true, bne_iff_ne]
    exact name.given
  simp only [readAttribute]
  rw [Attribute.render_eq, String.toList_append, List.append_assoc, List.takeWhile_append_of_pos letters, front,
    List.append_nil, String.ofList_toList, if_pos known, List.dropWhile_append_of_pos letters, back,
    readBody_written closed fun c mem => (stop c mem).2]
  rfl

theorem dropWhile_blank {w : List Char} (blank : ∀ c ∈ w, isBlank c = true) {c : Char} (shown : isBlank c = false)
    (r : List Char) : (w ++ c :: r).dropWhile isBlank = c :: r := by
  rw [List.dropWhile_append_of_pos blank, List.dropWhile_cons, if_neg (by simp [shown])]

theorem ending_cons (closing : Bool) (rest : List Char) : ∃ c r, ending closing ++ rest = c :: r ∧
    endsName c = true ∧ c ≠ '=' ∧ isBlank c = false := by
  cases closing with
  | true => exact ⟨'/', '>' :: rest, rfl, by decide, by decide, by decide⟩
  | false => exact ⟨'>', rest, rfl, by decide, by decide, by decide⟩

theorem readEnd_ending (closing : Bool) (rest : List Char) :
    readEnd (ending closing ++ rest) = some (closing, rest) := by
  cases closing <;> rfl

theorem endsName_blank {c : Char} (h : isBlank c = true) : endsName c = true ∧ c ≠ '=' := by
  refine ⟨by simp [endsName, h], ?_⟩
  rintro rfl
  exact absurd h (by decide)

theorem render_cons {a : Attribute} (name : IsAttributeName isName a.name) :
    ∃ c r, a.render.toList = c :: r ∧ endsName c = false := by
  obtain ⟨c, r, text⟩ := List.exists_cons_of_ne_nil fun empty => name.given (String.toList_inj.1 empty)
  have whole := name.whole
  rw [text] at whole
  exact ⟨c, r ++ a.body.text.toList, by rw [Attribute.render_eq, String.toList_append, text]; rfl,
    (List.forall_mem_cons.1 whole).1⟩

theorem render_given {a : Attribute} (name : IsAttributeName isName a.name) : a.render ≠ "" := by
  obtain ⟨c, r, text, -⟩ := render_cons name
  rintro empty
  rw [empty] at text
  cases text

/-- Whatever is taken for the end of a line is blank, so names hold nothing of that. -/
theorem isLineEnd_name {c : Char} (h : endsName c = false) : isLineEnd c = false := by
  by_contra ends
  have blank : isBlank c = true := isBlank_lineEnd (by simpa using ends)
  exact absurd (endsName_blank blank).1 (by simp [h])

/-- A tag does not end where an attribute starts. -/
theorem readEnd_render {a : Attribute} (name : IsAttributeName isName a.name) (tail : List Char) :
    readEnd (a.render.toList ++ tail) = none := by
  obtain ⟨c, r, start, letter⟩ := render_cons name
  rw [start, readEnd.eq_def]
  split
  · next same =>
    obtain ⟨rfl, -⟩ := List.cons.inj same
    exact absurd letter (by decide)
  · next same =>
    obtain ⟨rfl, -⟩ := List.cons.inj same
    exact absurd letter (by decide)
  · rfl

/-- Behind an attribute stands the white space of the next one, or what ends the tag. -/
theorem stop_behind {gap last : List Char} (given : gap ≠ []) (blank : ∀ c ∈ gap, isBlank c = true)
    (blank' : ∀ c ∈ last, isBlank c = true) (as : List Attribute) (closing : Bool) (rest : List Char) :
    ∀ c ∈ ((as.flatMap fun a => gap ++ a.render.toList) ++ (last ++ ending closing) ++ rest).head?,
      endsName c = true ∧ c ≠ '=' := by
  intro c mem
  cases as with
  | nil =>
    cases last with
    | nil =>
      obtain ⟨d, r, text, ends, other, -⟩ := ending_cons closing rest
      rw [List.flatMap_nil, List.nil_append, List.nil_append, text] at mem
      cases mem
      exact ⟨ends, other⟩
    | cons d r =>
      obtain rfl : d = c := by simpa using mem
      exact endsName_blank (blank' d List.mem_cons_self)
  | cons a r =>
    obtain ⟨d, gap', rfl⟩ := List.exists_cons_of_ne_nil given
    obtain rfl : d = c := by simpa using mem
    exact endsName_blank (blank d List.mem_cons_self)

/-- Attributes with names and closed bodies are read back, whatever white space stands in front of each. -/
theorem readAttributes_written {as : List Attribute} (names : ∀ a ∈ as, IsAttributeName isName a.name)
    (closed : ∀ a ∈ as, a.body.IsClosed) {gap last : List Char} (given : gap ≠ [])
    (blank : ∀ c ∈ gap, isBlank c = true) (blank' : ∀ c ∈ last, isBlank c = true) (closing : Bool)
    (rest : List Char) :
    readAttributes isName ((as.flatMap fun a => gap ++ a.render.toList) ++ (last ++ ending closing) ++ rest) =
      some (as, closing, rest) := by
  induction as with
  | nil =>
    obtain ⟨c, r, text, -, -, shown⟩ := ending_cons closing rest
    have skipped : (last ++ ending closing ++ rest).dropWhile isBlank = ending closing ++ rest := by
      rw [List.append_assoc, text, dropWhile_blank blank' shown]
    refine readAttributes_end ?_
    rw [List.flatMap_nil, List.nil_append, skipped, readEnd_ending]
  | cons a r ih =>
    obtain ⟨name, names⟩ := List.forall_mem_cons.1 names
    obtain ⟨own, closed⟩ := List.forall_mem_cons.1 closed
    let tail := (r.flatMap fun a => gap ++ a.render.toList) ++ (last ++ ending closing) ++ rest
    have text : ((a :: r).flatMap fun a => gap ++ a.render.toList) ++ (last ++ ending closing) ++ rest =
        gap ++ (a.render.toList ++ tail) := by
      simp [tail]
    obtain ⟨c, inner, start, letter⟩ := render_cons name
    have shown : isBlank c = false := by
      by_contra other
      exact absurd (endsName_blank (by simpa using other)).1 (by simp [letter])
    have skipped : (gap ++ (a.render.toList ++ tail)).dropWhile isBlank = a.render.toList ++ tail := by
      rw [start, List.cons_append, dropWhile_blank blank shown]
    have unended := readEnd_render name tail
    have spaced : ((gap ++ (a.render.toList ++ tail)).dropWhile isBlank).length <
        (gap ++ (a.render.toList ++ tail)).length := by
      have := List.length_pos_iff.2 given
      rw [skipped]
      simp only [List.length_append]
      omega
    have read := readAttribute_written name own (stop_behind given blank blank' r closing rest)
    rw [← skipped] at unended read
    rw [text, readAttributes_more unended spaced read, ih names closed]
    rfl

end Writing

section Opening

variable {isName : String → Bool} {width : Nat} {indent tag : String} {as : List Attribute} {closing : Bool}

/-- A tag on one line. -/
theorem opening_short (h : (opening width indent tag as closing).length = 1) :
    (unlines (opening width indent tag as closing)).toList = (indent ++ "<" ++ tag).toList ++
      ((as.flatMap fun a => [' '] ++ a.render.toList) ++ ((if closing then [' '] else []) ++ ending closing)) := by
  obtain one | more := opening_cases width indent tag as closing
  · have texts : (String.join ((as.map Attribute.render).map (" " ++ ·))).toList =
        as.flatMap fun a => [' '] ++ a.render.toList := by
      simp [String.toList_join, List.flatMap_map]
    have last : (if closing then " />" else ">").toList = (if closing then [' '] else []) ++ ending closing := by
      cases closing <;> rfl
    rw [one, unlines_cons, openingLine, ← last, ← texts]
    simp
  · rw [more] at h
    simp at h

/-- A tag on several lines. -/
theorem opening_long (h : (opening width indent tag as closing).length ≠ 1) :
    (unlines (opening width indent tag as closing)).toList = (indent ++ "<" ++ tag).toList ++
      ((as.flatMap fun a => (lines a.render).flatMap fun l => '\n' :: (indent ++ Script.indentStep ++ l).toList) ++
        ('\n' :: indent.toList ++ ending closing)) := by
  obtain one | more := opening_cases width indent tag as closing
  · exact absurd (congrArg List.length one) h
  · rw [more, unlines_cons, List.flatMap_append, List.flatMap_map, List.flatMap_assoc, List.flatMap_map]
    simp [ending]

variable (fits : ∀ a ∈ as, a.Fits) (spaces : ∀ c ∈ indent.toList, c = ' ')

include spaces in
/-- All that ends a line behind the tag are line feeds. -/
theorem feeds_long {c : Char} (mem : c ∈ (as.flatMap fun a => (lines a.render).flatMap fun l =>
    '\n' :: (indent ++ Script.indentStep ++ l).toList) ++ ('\n' :: indent.toList ++ ending closing))
    (ends : isLineEnd c = true) : c = '\n' := by
  have other {d : Char} (space : d = ' ') : isLineEnd d = false := by
    rw [space]
    decide
  have last : ∀ d ∈ ending closing, isLineEnd d = false := by
    cases closing <;> exact forall_chars (by decide)
  have step : ∀ d ∈ Script.indentStep.toList, d = ' ' := forall_chars (by decide)
  simp only [List.mem_append, List.mem_flatMap, List.mem_cons, String.toList_append] at mem
  obtain ⟨a, -, l, line, rfl | (mem | mem) | mem⟩ | ((rfl | mem) | mem) := mem
  · rfl
  · exact absurd ends (by simp [other (spaces c mem)])
  · exact absurd ends (by simp [other (step c mem)])
  · exact feeds_lines _ l line c mem ends
  · rfl
  · exact absurd ends (by simp [other (spaces c mem)])
  · exact absurd ends (by simp [last c mem])

include spaces in
theorem blank_indent : ∀ c ∈ indent.toList, isBlank c = true := by
  intro c mem
  rw [spaces c mem]
  decide

include spaces in
theorem readTag_start (tail : List Char) :
    readTag isName tag ((indent ++ "<" ++ tag).toList ++ tail) = readAttributes isName tail := by
  have text : (indent ++ "<" ++ tag).toList ++ tail = indent.toList ++ '<' :: (tag.toList ++ tail) := by simp
  have skipped : ((indent ++ "<" ++ tag).toList ++ tail).dropWhile isBlank = ("<" ++ tag).toList ++ tail := by
    rw [text, dropWhile_blank (blank_indent spaces) (by decide)]
    simp
  rw [readTag, skipped, List.dropPrefix?_append_of_beq _ (beq_self_eq_true _)]
  rfl

/-- Attributes that nothing breaks stand on one line each. -/
theorem lines_attributes (names : ∀ a ∈ as, IsAttributeName isName a.name) (unbroken : ∀ a ∈ as, a.IsUnbroken)
    (indent : String) : (as.flatMap fun a => (lines a.render).flatMap fun l => '\n' :: (indent ++ l).toList) =
      as.flatMap fun a => '\n' :: indent.toList ++ a.render.toList := by
  refine List.flatMap_congr fun a mem => ?_
  have name := names a mem
  have line : ∀ c ∈ a.render.toList, isLineEnd c = false := by
    rw [Attribute.render_eq, String.toList_append, List.forall_mem_append]
    exact ⟨fun c mem => isLineEnd_name (name.whole c mem), unbroken a mem⟩
  rw [lines_unbroken (render_given name) line]
  simp

include fits spaces in
/-- The opening tag of an element is read back, to its end, exactly if its attributes have names and either it stands
on one line or none of them is taken for the end of a line. -/
theorem readTag_opening_iff (rest : List Char) :
    readTag isName tag ((unlines (opening width indent tag as closing)).toList ++ rest) =
        some (as, closing, rest) ↔
      (∀ a ∈ as, IsAttributeName isName a.name) ∧
        ((opening width indent tag as closing).length = 1 ∨ ∀ a ∈ as, a.IsUnbroken) := by
  have closed : ∀ a ∈ as, a.body.IsClosed := fun a mem => (fits a mem).closed
  by_cases short : (opening width indent tag as closing).length = 1
  · have space : ∀ c ∈ [' '], isBlank c = true := forall_chars (by decide)
    have last : ∀ c ∈ (if closing then [' '] else []), isBlank c = true := by
      cases closing <;> exact forall_chars (by decide)
    rw [opening_short short, List.append_assoc, readTag_start spaces, and_iff_left (.inl short)]
    constructor
    · intro read
      obtain ⟨_, -, names⟩ := readAttributes_eq read
      exact fun a mem => (names a mem).1
    · intro names
      exact readAttributes_written names closed (by decide) space last closing rest
  · rw [opening_long short, List.append_assoc, readTag_start spaces, or_iff_right short]
    constructor
    · intro read
      obtain ⟨stood, text, names⟩ := readAttributes_eq read
      obtain rfl := List.append_cancel_right text
      refine ⟨fun a mem => (names a mem).1, fun a mem c inside => ?_⟩
      -- Whatever ends a line here is a line feed, and the attributes, which stand in it whole, hold none.
      by_contra ends
      have there : c ∈ a.render.toList := by
        rw [Attribute.render_eq, String.toList_append]
        exact List.mem_append_right _ inside
      have feed := feeds_long spaces ((names a mem).2.subset there) (by simpa using ends)
      exact (fits a mem).feedless (feed ▸ inside)
    · rintro ⟨names, unbroken⟩
      have blank := blank_indent spaces
      have gap : ∀ c ∈ '\n' :: (indent ++ Script.indentStep).toList, isBlank c = true := by
        rw [List.forall_mem_cons, String.toList_append, List.forall_mem_append]
        exact ⟨by decide, blank, forall_chars (by decide)⟩
      have last : ∀ c ∈ '\n' :: indent.toList, isBlank c = true := List.forall_mem_cons.2 ⟨by decide, blank⟩
      rw [lines_attributes names unbroken]
      exact readAttributes_written names closed (by simp) gap last closing rest

/-- An element starts with its opening tag. -/
theorem layout_opening (width : Nat) (indent tag : String) (as : List Attribute) (children : List Markup) :
    ∃ rest, (unlines (layout width indent (.element tag as children))).toList =
      (unlines (opening width indent tag as children.isEmpty)).toList ++ rest := by
  have more (ls ls' : List String) (given : ls ≠ []) :
      ∃ rest, (unlines (ls ++ ls')).toList = (unlines ls).toList ++ rest := by
    obtain ⟨l, r, rfl⟩ := List.exists_cons_of_ne_nil given
    refine ⟨ls'.flatMap fun l => '\n' :: l.toList, ?_⟩
    rw [List.cons_append, unlines_cons, unlines_cons, List.flatMap_append, List.append_assoc]
  cases children with
  | nil =>
    rw [layout]
    exact ⟨[], (List.append_nil _).symm⟩
  | cons child children =>
    have given : opening width indent tag as false ≠ [] := by
      obtain one | more := opening_cases width indent tag as false
      · simp [one]
      · simp [more]
    rw [layout]
    split
    · next line whole =>
      obtain ⟨first, -, inline, start, -, -, rfl, -⟩ := compact?_cases whole
      rw [List.isEmpty_cons, start]
      exact ⟨(inline ++ "</" ++ tag ++ ">").toList, by simp [unlines]⟩
    · rw [List.append_assoc]
      exact more _ _ given

/-- What is read in front of the text of the element are its attributes, up to where its opening tag ends. -/
def ReadsBack (isName : String → Bool) (width depth : Nat) (tag : String) (as : List Attribute)
    (children : List Markup) : Prop :=
  ∃ rest, (render width depth (.element tag as children)).toList =
      (unlines (opening width (Script.indentation depth) tag as children.isEmpty)).toList ++ rest ∧
    readTag isName tag (render width depth (.element tag as children)).toList =
      some (as, children.isEmpty, rest)

include fits in
theorem readsBack_iff (width depth : Nat) (children : List Markup) :
    ReadsBack isName width depth tag as children ↔
      (∀ a ∈ as, IsAttributeName isName a.name) ∧
        ((opening width (Script.indentation depth) tag as children.isEmpty).length = 1 ∨
          ∀ a ∈ as, a.IsUnbroken) := by
  have spaces : ∀ c ∈ (Script.indentation depth).toList, c = ' ' := by
    intro c mem
    rw [Script.indentation, String.toList_ofList] at mem
    exact List.eq_of_mem_replicate mem
  obtain ⟨rest, text⟩ := layout_opening width (Script.indentation depth) tag as children
  rw [← readTag_opening_iff fits spaces rest, ← text]
  constructor
  · rintro ⟨rest', text', read⟩
    rw [render, text] at text'
    rwa [render, ← List.append_cancel_left text'] at read
  · exact fun read => ⟨rest, text, read⟩

end Opening

end Markup

end Pagesmith
