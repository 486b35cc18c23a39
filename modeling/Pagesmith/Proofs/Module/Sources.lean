import Pagesmith.Proofs.Format.Lines
import Pagesmith.Proofs.Module.Header

/-!
The sources that a module imports from, read from its text. The imports stand in front of the first
constant, and each has its source as a string at its end. An export may be named by a text with a line feed
at its end, and its import then goes over two lines; the lines are read for their sources all the same, and
stay as they are when the text is brought into form.
-/

namespace Pagesmith

namespace Script
open Format Text

/-- The line declares a constant. -/
def declares (l : List Char) : Bool := "const ".toList.isPrefixOf l

/-- The string at the end of a line. -/
def lineSource (l : List Char) : Option String := readSource (l.dropWhile (· != '"'))

/-- The sources that lines import from, where they have any. -/
def lineSources (ls : List (List Char)) : Option (List String) :=
  (ls.filter (·.contains '"')).mapM lineSource

/-- The sources that a text imports from. -/
def importSources (text : String) : Option (List String) :=
  lineSources ((inked (linesOf text.toList)).takeWhile fun l => !declares l)

section Lines

/-- The lines of a text that are not blank. -/
def shownLines (s : String) : List (List Char) := inked (pieces '\n' s.toList)

theorem shownLines_feed (s t : String) : shownLines (s ++ "\n" ++ t) = shownLines s ++ shownLines t := by
  have text : (s ++ "\n" ++ t).toList = s.toList ++ '\n' :: t.toList := by simp
  rw [shownLines, text, pieces_append, inked_append]
  rfl

theorem shownLines_blankLine (s t : String) :
    shownLines (s ++ "\n\n" ++ t) = shownLines s ++ shownLines t := by
  have blank : s ++ "\n\n" ++ t = s ++ "\n" ++ ("" ++ "\n" ++ t) := by
    rw [String.append_assoc, String.append_assoc]
    rfl
  rw [blank, shownLines_feed, shownLines_feed]
  rfl

end Lines

section Clause

/-- The clause of an import, with line feeds only between a name and a space. -/
inductive IsClause : List Char → Prop
  | flat {cs : List Char} (chars : ∀ c ∈ cs, isClauseChar c = true) : IsClause cs
  | cut {cs r : List Char} {d : Char} (chars : ∀ c ∈ cs ++ [d], isClauseChar c = true)
      (name : isNameChar d = true) (rest : IsClause (' ' :: r)) :
      IsClause (cs ++ [d] ++ '\n' :: ' ' :: r)

theorem IsClause.append {cs ds : List Char} (h : IsClause cs) (h' : IsClause ds) :
    IsClause (cs ++ ds) := by
  induction h with
  | @flat cs chars =>
    cases h' with
    | flat chars' => exact .flat (List.forall_mem_append.2 ⟨chars, chars'⟩)
    | @cut ds r d chars' name rest =>
      have all : ∀ c ∈ cs ++ ds ++ [d], isClauseChar c = true := by
        rw [List.append_assoc]
        exact List.forall_mem_append.2 ⟨chars, chars'⟩
      simpa using IsClause.cut all name rest
  | cut chars name _ ih => simpa using IsClause.cut chars name ih

theorem IsClause.chars {cs : List Char} (h : IsClause cs) :
    ∀ c ∈ cs, isClauseChar c = true ∨ c = '\n' := by
  induction h with
  | flat chars => exact fun c mem => .inl (chars c mem)
  | cut chars _ _ ih =>
    intro c mem
    obtain front | back := List.mem_append.1 mem
    · exact .inl (chars c front)
    · obtain rfl | back := List.mem_cons.1 back
      · exact .inr rfl
      · exact ih c back

theorem IsClause.of_clauseOnly {s : String} (h : ClauseOnly s) : IsClause s.toList := .flat h

theorem IsClause.intercalate {sep : String} (between : ClauseOnly sep) {texts : List String}
    (h : ∀ t ∈ texts, IsClause t.toList) : IsClause (String.intercalate sep texts).toList := by
  induction texts with
  | nil => exact .flat (by simp)
  | cons t r ih =>
    obtain ⟨first, rest⟩ := List.forall_mem_cons.1 h
    match r with
    | [] => simpa using first
    | t' :: r =>
      rw [String.intercalate_cons_cons, String.toList_append, String.toList_append]
      exact (first.append (.of_clauseOnly between)).append (ih rest)

/-- A binding of an identifier to a name. -/
def Exports (b : String × String) : Prop := isIdentifier b.1 = true ∧ IsName b.2

theorem isClause_specifier {b : String × String} (h : Exports b) :
    IsClause (importSpecifier b.1 b.2).toList := by
  obtain ⟨exported, name⟩ := h
  obtain isName | ⟨t, isName, same⟩ := isIdentifier_cases exported
  · exact .of_clauseOnly (clauseOnly_specifier ⟨isName, name⟩)
  · have other : (b.1 == b.2) = false := by
      refine beq_false_of_ne fun equal => ?_
      have feed : '\n' ∈ b.2.toList := by simp [← equal, same]
      exact absurd (name.chars _ feed) (by decide)
    have chars := isName.chars
    have clause := clauseOnly_name isName
    obtain empty | ⟨cs, d, text⟩ := List.eq_nil_or_concat' t.toList
    · obtain ⟨c, r, given, -⟩ := isName
      rw [empty] at given
      cases given
    · have rest : IsClause (" as " ++ b.2).toList :=
        .of_clauseOnly (.append (by decide) (clauseOnly_name name))
      have start : (" as " ++ b.2).toList = ' ' :: ("as " ++ b.2).toList := by simp
      have whole : (b.1 ++ " as " ++ b.2).toList = cs ++ [d] ++ '\n' :: ' ' :: ("as " ++ b.2).toList := by
        simp [same, text]
      rw [start] at rest
      rw [ClauseOnly, text] at clause
      rw [importSpecifier, other, if_neg Bool.false_ne_true, whole]
      exact .cut clause (chars d (by simp [text])) rest

variable {main : Option String} (isName : ∀ d ∈ main, IsName d) {named : List (String × String)}
  (exported : ∀ b ∈ named, Exports b)
include isName exported

theorem isClause_front : IsClause ("import " ++ clauseText main named).toList := by
  have start : IsClause "import ".toList := .of_clauseOnly (by decide)
  have listed : IsClause (specifierTexts named).toList :=
    .intercalate (by decide) (List.forall_mem_map.2 fun b mem => isClause_specifier (exported b mem))
  have braces : IsClause (bracesText named).toList := by
    rw [bracesText, String.toList_append, String.toList_append]
    exact (IsClause.append (.of_clauseOnly (by decide)) listed).append (.of_clauseOnly (by decide))
  have alone {d t : String} (mem : d ∈ main) (text : ClauseOnly t) : IsClause (d ++ t).toList :=
    .of_clauseOnly ((clauseOnly_name (isName d mem)).append text)
  rw [String.toList_append]
  refine start.append ?_
  cases main with
  | none =>
    cases named with
    | nil => exact .flat (by simp [clauseText])
    | cons b r => exact braces
  | some d =>
    cases named with
    | nil => exact alone rfl (by decide)
    | cons b r =>
      have text : clauseText (some d) (b :: r) = d ++ ", " ++ bracesText (b :: r) := rfl
      rw [text, String.toList_append]
      exact (alone rfl (by decide)).append braces

end Clause

section Heading

/-- Lines of a heading: in form, without a declaration, and with these sources. -/
structure IsHeading (ls : List (List Char)) (sources : List String) : Prop where
  tidy : ∀ l ∈ ls, IsTidy l
  other : ∀ l ∈ ls, declares l = false
  read : lineSources ls = some sources

theorem isHeading_nil : IsHeading [] [] := ⟨by simp, by simp, rfl⟩

/-- Blank lines have no sources. -/
theorem lineSources_inked (ls : List (List Char)) : lineSources (inked ls) = lineSources ls := by
  have quoted (l : List Char) : (l.contains '"' && !isBlankLine l) = l.contains '"' := by
    rw [Bool.and_eq_left_iff_imp]
    intro quote
    have mem : '"' ∈ l := by simpa using quote
    have shown : isBlankLine l = false := List.all_eq_false.2 ⟨_, mem, by decide⟩
    rw [shown]
    rfl
  simp only [lineSources, inked, List.filter_filter, quoted]

namespace IsHeading

variable {ls ls' : List (List Char)} {sources sources' : List String} (h : IsHeading ls sources)
include h

theorem append (h' : IsHeading ls' sources') : IsHeading (ls ++ ls') (sources ++ sources') where
  tidy := List.forall_mem_append.2 ⟨h.tidy, h'.tidy⟩
  other := List.forall_mem_append.2 ⟨h.other, h'.other⟩
  read := by
    have first := h.read
    have rest := h'.read
    simp only [lineSources] at first rest ⊢
    rw [List.filter_append, List.mapM_append, first, rest]
    rfl

theorem inked : IsHeading (Format.inked ls) sources where
  tidy := fun l mem => h.tidy l (List.mem_of_mem_filter mem)
  other := fun l mem => h.other l (List.mem_of_mem_filter mem)
  read := (lineSources_inked ls).trans h.read

variable {text : String} {l : List Char} {rest : List (List Char)}

/-- The sources of a text are those of its heading, up to the first declaration. -/
theorem importSources (lines : Format.inked (linesOf text.toList) = ls ++ l :: rest)
    (constant : declares l = true) : importSources text = some sources := by
  rw [Script.importSources, lines, List.takeWhile_append_of_pos fun l mem => by simp [h.other l mem],
    List.takeWhile_cons, if_neg (by simp [constant]), List.append_nil, h.read]

/-- Bringing a text into form leaves its sources. -/
theorem importSources_formed {f : OutputFile} (source : f.kind.category = .source)
    (lines : Format.inked (linesOf f.content.toList) = ls ++ l :: rest) (tidy : IsTidy l)
    (constant : declares l = true) (o : Options) :
    Script.importSources (formed o f).content = some sources := by
  obtain form | same := formed_source source o
  · have kept : ls.map (line o) = ls :=
      (List.map_congr_left fun l mem => (h.tidy l mem).line_eq).trans (List.map_id _)
    have formed : Format.inked (linesOf (Format.text o f.content).toList) = ls ++ l :: rest.map (line o) := by
      rw [inked_text, lines, List.map_append, List.map_cons, kept, tidy.line_eq]
    rw [form]
    exact h.importSources formed constant
  · rw [same]
    exact h.importSources lines constant

end IsHeading

theorem isBlank_name {c : Char} (h : isNameChar c = true) : isBlank c = false := by
  have range : 48 ≤ c.toNat ∧ c.toNat ≤ 122 ∨ c.toNat = 36 := by
    simp only [isNameChar, Bool.or_eq_true, beq_iff_eq] at h
    obtain (h | rfl) | rfl := h
    · have := isAlphanum_range h
      omega
    · exact .inl (by decide)
    · exact .inr (by decide)
  refine List.any_eq_false.2 fun r mem inside => ?_
  simp only [Bool.and_eq_true, decide_eq_true_eq] at inside
  have apart : ∀ r ∈ blankRanges, r.2 < 36 ∨ 122 < r.1 := by decide
  have := apart r mem
  omega

theorem declares_other {c : Char} {r : List Char} (h : c ≠ 'c') : declares (c :: r) = false :=
  Bool.and_eq_false_imp.2 fun same => absurd (eq_of_beq same).symm h

/-- The lines of a clause with its source behind it. -/
theorem IsClause.heading {cs : List Char} (h : IsClause cs) {first : Char} {rest : List Char}
    (start : cs = first :: rest) (letter : first ≠ 'c') (shown : first ≠ '\t') (source : String) :
    IsHeading (pieces '\n' (cs ++ (stringLiteral source ++ ";").toList)) [source] := by
  have text : (stringLiteral source ++ ";").toList = (stringLiteral source).toList ++ [';'] := by simp
  have quote : (stringLiteral source).toList = '"' :: (source.toList.flatMap spelling ++ ['"']) := by
    simp [toList_stringLiteral]
  have clean {ds : List Char} (chars : ∀ c ∈ ds, isClauseChar c = true) {d : Char}
      (other : isClauseChar d = false) : d ∉ ds := fun mem => absurd (chars d mem) (by simp [other])
  induction h generalizing first rest with
  | @flat cs chars =>
    have whole : '\n' ∉ cs ++ ((stringLiteral source).toList ++ [';']) := by
      simp only [List.mem_append, List.mem_singleton, not_or]
      exact ⟨clean chars (by decide), whole_stringLiteral source, by decide⟩
    have front : ∀ c ∈ cs, (c != '"') = true := fun c mem =>
      bne_iff_ne.2 fun same => clean chars (by decide) (same ▸ mem)
    rw [text, pieces_whole whole]
    refine ⟨List.forall_mem_singleton.2 ⟨?_, ?_⟩, List.forall_mem_singleton.2 ?_, ?_⟩
    · rw [start]
      simpa using shown
    · rw [← List.append_assoc, List.getLast?_concat]
      rintro c ⟨⟩
      decide
    · rw [start]
      exact declares_other letter
    · have found : lineSource (cs ++ ((stringLiteral source).toList ++ [';'])) = some source := by
        rw [lineSource, List.dropWhile_append_of_pos front, quote, List.cons_append, List.dropWhile_cons,
          if_neg (by decide), ← List.cons_append, ← quote, readSource_written]
      have holds : (cs ++ ((stringLiteral source).toList ++ [';'])).contains '"' = true := by
        simp [quote]
      rw [lineSources, List.filter_cons, if_pos holds, List.filter_nil, List.mapM_cons, found]
      rfl
  | @cut ds r d chars name tail ih =>
    have whole : '\n' ∉ ds ++ [d] := clean chars (by decide)
    have quoteless : (ds ++ [d]).contains '"' = false := by
      simpa using clean chars (d := '"') (by decide)
    have front : IsHeading [ds ++ [d]] [] := by
      refine ⟨List.forall_mem_singleton.2 ⟨?_, ?_⟩, List.forall_mem_singleton.2 ?_, ?_⟩
      · intro tab
        exact clean chars (by decide) (List.mem_of_mem_head? tab)
      · rw [List.getLast?_concat]
        rintro c ⟨⟩
        exact isBlank_name name
      · obtain ⟨r', same⟩ : ∃ r', ds ++ [d] = first :: r' := by
          cases ds with
          | nil => exact ⟨[], congrArg (· :: []) (List.cons.inj start).1⟩
          | cons e ds => exact ⟨ds ++ [d], congrArg (· :: (ds ++ [d])) (List.cons.inj start).1⟩
        rw [same]
        exact declares_other letter
      · rw [lineSources, List.filter_cons, if_neg (by rw [quoteless]; decide)]
        rfl
    rw [List.append_assoc, List.cons_append, pieces_append, pieces_whole whole]
    exact front.append (ih rfl (by decide) (by decide))

end Heading

end Script

namespace Module
open Format Script Text

/-- The entry has a line with one source: its default name is a name, and its exports are identifiers. -/
structure Entry.Listed (e : Entry) : Prop where
  main : ∀ d ∈ e.2.main, IsName d
  named : ∀ b ∈ e.2.named, Exports b

namespace Entry

variable {e : Entry}

theorem Named.listed (h : e.Named) : e.Listed where
  main := h.main
  named := fun b mem => ⟨(h.named b mem).1.isIdentifier, (h.named b mem).2⟩

theorem Listed.ordered (h : e.Listed) : e.ordered.Listed where
  main := h.main
  named := fun b mem => h.named b ((Table.sorted_perm _).mem_iff.1 mem)

theorem Listed.heading (h : e.Listed) : IsHeading (pieces '\n' e.line.toList) [e.1] := by
  have text : e.line.toList = ("import " ++ clauseText e.2.main e.2.named).toList ++
      (stringLiteral e.1 ++ ";").toList := by
    rw [line, importLine_eq e.1 (given_of_names h.main)]
    simp
  have start : ("import " ++ clauseText e.2.main e.2.named).toList =
      'i' :: ("mport " ++ clauseText e.2.main e.2.named).toList := by simp
  rw [text]
  exact (isClause_front h.main h.named).heading start (by decide) (by decide) e.1

theorem Listed.returnFree (h : e.Listed) : '\r' ∉ e.line.toList := by
  have clause := (isClause_front h.main h.named).chars
  rw [line, importLine_eq e.1 (given_of_names h.main)]
  rw [String.toList_append, String.toList_append]
  simp only [List.mem_append, not_or]
  refine ⟨⟨fun mem => ?_, fun mem => ?_⟩, by decide⟩
  · exact (clause _ mem).elim (by decide) (by decide)
  · obtain ⟨-, -, -, -, -, shown⟩ := isInert_codeText (Value.shown_jsonString e.1) _ mem
    exact absurd shown (by decide)

/-- The lines of the entries, in their order, have the sources of the entries. -/
theorem isHeading_lines {es : List Entry} (h : ∀ e ∈ es, e.Listed) :
    IsHeading (es.flatMap fun e => shownLines e.line) (es.map (·.1)) := by
  induction es with
  | nil => exact isHeading_nil
  | cons e r ih =>
    obtain ⟨first, rest⟩ := List.forall_mem_cons.1 h
    exact first.heading.inked.append (ih rest)

end Entry

/-- All that a module imports, in the order of the lines. -/
def headerEntries (m : Module) : List Entry :=
  m.libraryEntry :: (m.lineEntries ++ m.stylesheetEntries)

theorem shownLines_header (m : Module) :
    shownLines m.header = m.headerEntries.flatMap fun e => shownLines e.line := by
  have blocks : shownLines m.header = m.importBlocks.flatten.flatMap shownLines := by
    rw [header, flatMap_intercalate rfl shownLines_blankLine, List.flatMap_map]
    simp only [unlines, flatMap_intercalate rfl shownLines_feed]
    rw [List.flatten_eq_flatMap, List.flatMap_assoc]
    rfl
  rw [blocks, importBlocks_flatten, List.flatMap_map]
  rfl

/-- The line that declares a component. -/
def componentLine (name : String) : String := "const " ++ name ++ ": React.FC = () => \x7b"

/-- What a component has behind the line that declares it. -/
def componentRest (name : String) (sections : List (List String)) (markup : String) : String :=
  unlines [String.intercalate "\n\n" (componentBlocks sections markup), "\x7d;", "",
    "export default " ++ name ++ ";", ""]

theorem functionComponent_start (name : String) (sections : List (List String)) (markup : String) :
    functionComponent name sections markup =
      componentLine name ++ "\n" ++ componentRest name sections markup := by
  rw [functionComponent_lines, componentLine, componentRest, unlines, unlines, String.intercalate_cons_cons]

theorem declares_componentLine (name : String) : declares (componentLine name).toList = true := by
  rw [declares, componentLine, String.toList_append, String.toList_append]
  rfl

theorem isTidy_componentLine (name : String) : IsTidy (componentLine name).toList where
  start := by simp [componentLine]
  ends := by
    have last : (componentLine name).toList.getLast? = some '\x7b' := by
      rw [componentLine, String.toList_append, List.getLast?_append_of_ne_nil _ (by decide)]
      rfl
    rw [last]
    rintro c ⟨⟩
    decide

theorem componentLine_free {name : String} (isName : IsName name) {c : Char}
    (other : isNameChar c = false) (outside : c ∉ (componentLine "").toList) :
    c ∉ (componentLine name).toList := by
  simp only [componentLine, String.toList_append, List.mem_append, not_or] at outside ⊢
  exact ⟨⟨outside.1.1, fun mem => absurd (isName.chars c mem) (by simp [other])⟩, outside.2⟩

/-- The line starts neither as a declaration nor with a tab, so that it is none in form either. -/
def IsInner (l : List Char) : Prop := ∀ c ∈ l.head?, c ≠ 'c' ∧ c ≠ '\t'

theorem inner_componentRest {name : String} (isName : IsName name) (sections : List (List String))
    (markup : String) : AllLines IsInner (componentRest name sections markup) := by
  have empty : IsInner [] := by simp [IsInner]
  have start {s : String} {c : Char} (head : HasHead c s) (other : c ≠ 'c' ∧ c ≠ '\t') : IsInner s.toList := by
    intro d mem
    rw [show s.toList.head? = some c from head] at mem
    exact Option.some.inj mem ▸ other
  have exported : HasHead 'e' "export default " := rfl
  have body : AllLines IsInner (String.intercalate "\n\n" (componentBlocks sections markup)) := by
    refine (moved_componentBlocks sections markup).mono fun l moved => ?_
    obtain rfl | space := moved
    · exact empty
    · rw [IsInner, space]
      rintro c ⟨⟩
      decide
  refine .unlines empty ?_
  simp only [List.forall_mem_cons]
  refine ⟨body, .line (by decide) (start (c := '\x7d') rfl (by decide)), .line (by simp) empty,
    .line (by simp [whole_name isName]) (start ((exported.append _).append _) (by decide)),
    .line (by simp) empty, by simp⟩

section Text

variable {m : Module} (h : ∀ e : Entry, e ∈ m.imports → e.Listed)
include h

theorem listed_headerEntries : ∀ e ∈ m.headerEntries, e.Listed := by
  simp only [headerEntries, List.forall_mem_cons, List.forall_mem_append]
  refine ⟨(named_libraryEntry m).listed, fun e mem => ?_, fun e mem => ?_⟩
  · obtain ⟨e', found, rfl⟩ := List.mem_map.1 ((lineEntries_perm m).mem_iff.1 mem)
    exact (h e' found).ordered
  · exact (named_stylesheetEntries m e mem).listed

theorem returnFree_header : '\r' ∉ m.header.toList := by
  intro mem
  obtain between | ⟨block, found, mem⟩ := Value.mem_intercalate mem
  · exact absurd between (by decide)
  · obtain ⟨ls, listed, rfl⟩ := List.mem_map.1 found
    obtain between | ⟨l, inside, mem⟩ := Value.mem_intercalate mem
    · exact absurd between (by decide)
    · have line := List.mem_flatten_of_mem listed inside
      rw [importBlocks_flatten] at line
      obtain ⟨e, there, rfl⟩ := List.mem_map.1 line
      exact (listed_headerEntries h e there).returnFree mem

/-- The text has the lines of its imports, then the line that declares the component, and behind it no other
line that could be taken for a declaration. -/
theorem inked_text_module (name : Option String) : ∃ rest, (∀ l ∈ rest, IsInner l) ∧
    inked (linesOf (m.text name).toList) = (m.headerEntries.flatMap fun e => shownLines e.line) ++
      (componentLine (toIdentifier ((givenText name).getD m.name))).toList :: rest := by
  let component := toIdentifier ((givenText name).getD m.name)
  let sections := [m.states.map (·.2), m.effects, m.methods.map (·.2)]
  have isName : IsName component := isName_toIdentifier _
  have text : (m.text name).toList = m.header.toList ++ '\n' :: ([] ++ '\n' ::
      ((componentLine component).toList ++ '\n' :: (componentRest component sections m.markup).toList)) := by
    rw [Module.text, functionComponent_start]
    simp [component, sections]
  have whole := pieces_whole (componentLine_free isName (c := '\n') rfl (by decide))
  have other : isBlankLine (componentLine component).toList = false := by
    rw [componentLine, String.toList_append, String.toList_append]
    rfl
  have free : '\r' ∉ (componentRest component sections m.markup).toList := by
    have feeds := feeds_functionComponent isName sections m.markup
    rw [functionComponent_start] at feeds
    intro mem
    exact absurd (feeds '\r' (by simp [mem]) (by decide)) (by decide)
  refine ⟨inked (pieces '\n' (componentRest component sections m.markup).toList), fun l mem => ?_, ?_⟩
  · exact inner_componentRest isName sections m.markup l (List.mem_of_mem_filter mem)
  · rw [text, linesOf_feed (returnFree_header h), linesOf_feed (by simp),
      linesOf_feed (componentLine_free isName rfl (by decide)), whole, linesOf_eq free, inked_append, inked_append,
      inked_append, ← shownLines_header]
    have blank : inked (pieces '\n' []) = [] := rfl
    have alone : inked [(componentLine component).toList] = [(componentLine component).toList] :=
      inked_self (List.forall_mem_singleton.2 other)
    rw [blank, alone, List.nil_append, List.singleton_append]
    rfl

theorem importSources_module {f : OutputFile} (source : f.kind.category = .source)
    {name : Option String} (content : f.content = m.text name) (o : Options) :
    importSources (formed o f).content = some (m.headerEntries.map (·.1)) := by
  obtain ⟨rest, -, lines⟩ := inked_text_module h name
  exact (Entry.isHeading_lines (listed_headerEntries h)).importSources_formed source
    (content ▸ lines) (isTidy_componentLine _) (declares_componentLine _) o

end Text

end Module

end Pagesmith
