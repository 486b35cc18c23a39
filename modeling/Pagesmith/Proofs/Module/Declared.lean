import Pagesmith.Proofs.Module.Imports
import Pagesmith.Proofs.Module.Sources
import Pagesmith.Proofs.Scaffold.Router

/-!
The names that a module declares, read from its text: those that its imports bind, in front of the first
constant, and those of its constants. An import may go over several lines, up to the one with its source; it
binds the last word of each part of its clause.
-/

namespace Pagesmith

namespace Script
open Format Text

/-- The last word of a text. -/
def lastWord (cs : List Char) : String :=
  String.ofList ((cs.reverse.dropWhile fun c => !isNameChar c).takeWhile isNameChar).reverse

/-- The names that an import binds. -/
def importNames (statement : List Char) : List String :=
  match Scaffold.between "import " " from " (statement.takeWhile (· != '"')) with
  | some parts => (pieces ',' parts).map lastWord
  | none => []

/-- Imports, the lines of each put together. -/
def importStatements : (front : List Char) → List (List Char) → List (List Char)
  | _, [] => []
  | front, l :: r =>
    if l.contains '"' then (front ++ l) :: importStatements [] r
    else importStatements (front ++ l ++ ['\n']) r

/-- The name of the constant that a line declares. -/
def constantName (l : List Char) : String :=
  String.ofList ((l.drop "const ".toList.length).takeWhile isNameChar)

/-- The names that a text declares. -/
def declaredNames (text : String) : List String :=
  let ls := inked (linesOf text.toList)
  (importStatements [] (ls.takeWhile fun l => !declares l)).flatMap importNames ++
    (ls.filter declares).map constantName

section Words

theorem lastWord_name {front tail : List Char} (before : ∀ c ∈ front.getLast?, isNameChar c = false)
    {name : String} (isName : IsName name) (behind : ∀ c ∈ tail, isNameChar c = false) :
    lastWord (front ++ name.toList ++ tail) = name := by
  have letters := isName.chars
  obtain ⟨c, r, text, -⟩ := isName
  obtain ⟨d, ds, last⟩ : ∃ d ds, name.toList.reverse = d :: ds :=
    List.exists_cons_of_ne_nil (by simp [text])
  have letters' : ∀ e ∈ name.toList.reverse, isNameChar e = true := fun e mem => letters e (List.mem_reverse.1 mem)
  have first : isNameChar d = true := letters' d (by simp [last])
  have start : (name.toList.reverse ++ front.reverse).dropWhile (fun c => !isNameChar c) =
      name.toList.reverse ++ front.reverse := by
    rw [last, List.cons_append, List.dropWhile_cons, if_neg (by simp [first])]
  have stop : front.reverse.takeWhile isNameChar = [] := by
    cases rest : front.reverse with
    | nil => rfl
    | cons e es =>
      have given : e ∈ front.getLast? := by
        rw [← List.head?_reverse, rest]
        rfl
      rw [List.takeWhile_cons, if_neg (by simp [before e given])]
  rw [lastWord, List.reverse_append, List.reverse_append, List.dropWhile_append_of_pos (by simpa using behind),
    start, List.takeWhile_append_of_pos letters', stop, List.append_nil, List.reverse_reverse,
    String.ofList_toList]

/-- What a specifier has in front of the name that it binds. -/
theorem specifier_front {b : String × String} (h : Exports b) : ∃ front,
    (importSpecifier b.1 b.2).toList = front ++ b.2.toList ∧
      (∀ c ∈ front.getLast?, isNameChar c = false) ∧ ',' ∉ front := by
  rw [importSpecifier]
  split
  · next same => exact ⟨[], by rw [eq_of_beq same]; rfl, by simp, by simp⟩
  · refine ⟨(b.1 ++ " as ").toList, by simp, ?_, ?_⟩
    · have last : (b.1 ++ " as ").toList.getLast? = some ' ' := by
        rw [String.toList_append, List.getLast?_append_of_ne_nil _ (by decide)]
        rfl
      rw [last]
      rintro c ⟨⟩
      decide
    · have exported : ',' ∉ b.1.toList := by
        obtain isName | ⟨t, isName, same⟩ := isIdentifier_cases h.1
        · exact fun mem => absurd (isName.chars _ mem) (by decide)
        · rw [same, String.toList_append]
          intro mem
          obtain mem | mem := List.mem_append.1 mem
          · exact absurd (isName.chars _ mem) (by decide)
          · exact absurd mem (by decide)
      simp [exported]

theorem comma_name {name : String} (h : IsName name) : ',' ∉ name.toList :=
  fun mem => absurd (h.chars _ mem) (by decide)

/-- The parts between braces end with the names that are bound. -/
theorem lastWords_specifiers {named : List (String × String)} (given : named ≠ [])
    (exported : ∀ b ∈ named, Exports b) {front tail : List Char}
    (before : ∀ c ∈ front.getLast?, isNameChar c = false) (clear : ',' ∉ front)
    (behind : ∀ c ∈ tail, isNameChar c = false) (clear' : ',' ∉ tail) :
    (pieces ',' (front ++ (specifierTexts named).toList ++ tail)).map lastWord = named.map (·.2) := by
  induction named generalizing front with
  | nil => contradiction
  | cons b r ih =>
    obtain ⟨own, rest⟩ := List.forall_mem_cons.1 exported
    obtain ⟨inner, text, ends, free⟩ := specifier_front own
    have ends' : ∀ c ∈ (front ++ inner).getLast?, isNameChar c = false := by
      intro c mem
      rw [List.getLast?_append] at mem
      obtain mem | ⟨-, mem⟩ := Option.or_eq_some_iff.1 mem
      · exact ends c mem
      · exact before c mem
    have name := comma_name own.2
    cases r with
    | nil =>
      have one : front ++ (specifierTexts [b]).toList ++ tail = front ++ inner ++ b.2.toList ++ tail := by
        simp [specifierTexts, text]
      rw [one, pieces_whole (by simp [clear, free, name, clear']), List.map_singleton,
        lastWord_name ends' own.2 behind]
      rfl
    | cons b' r =>
      have more : front ++ (specifierTexts (b :: b' :: r)).toList ++ tail =
          (front ++ inner ++ b.2.toList ++ []) ++
            ',' :: ([' '] ++ (specifierTexts (b' :: r)).toList ++ tail) := by
        simp [specifierTexts, String.intercalate_cons_cons, text]
      have blank : ∀ c ∈ [' '].getLast?, isNameChar c = false := by
        rintro c ⟨⟩
        decide
      rw [more, pieces_append, pieces_whole (by simp [clear, free, name]), List.map_append, List.map_singleton,
        lastWord_name ends' own.2 (by simp), ih (by simp) rest blank (by decide)]
      rfl

end Words

section Statements

/-- The lines of a clause with its source behind it are put together again. -/
theorem IsClause.statement {cs : List Char} (h : IsClause cs) (source : String) (front : List Char)
    (rest : List (List Char)) :
    importStatements front (inked (pieces '\n' (cs ++ (stringLiteral source ++ ";").toList)) ++ rest) =
      (front ++ (cs ++ (stringLiteral source ++ ";").toList)) :: importStatements [] rest := by
  have quote : '"' ∈ (stringLiteral source ++ ";").toList := by simp [toList_stringLiteral]
  have clean {ds : List Char} (chars : ∀ c ∈ ds, isClauseChar c = true) {d : Char}
      (other : isClauseChar d = false) : d ∉ ds := fun mem => absurd (chars d mem) (by simp [other])
  induction h generalizing front with
  | @flat cs chars =>
    have whole : '\n' ∉ cs ++ (stringLiteral source ++ ";").toList := by
      simp [clean chars (d := '\n') (by decide), whole_stringLiteral]
    have shown : isBlankLine (cs ++ (stringLiteral source ++ ";").toList) = false :=
      List.all_eq_false.2 ⟨'"', List.mem_append_right _ quote, by decide⟩
    have holds : (cs ++ (stringLiteral source ++ ";").toList).contains '"' = true :=
      List.contains_iff_mem.2 (List.mem_append_right _ quote)
    rw [pieces_whole whole, inked_self (List.forall_mem_singleton.2 shown), List.singleton_append,
      importStatements, if_pos holds]
  | @cut ds r d chars name tail ih =>
    have whole : '\n' ∉ ds ++ [d] := clean chars (by decide)
    have shown : isBlankLine (ds ++ [d]) = false :=
      List.all_eq_false.2 ⟨d, by simp, by simp [isBlank_name name]⟩
    have quoteless : (ds ++ [d]).contains '"' = false := by
      simpa using clean chars (d := '"') (by decide)
    rw [List.append_assoc, List.cons_append, pieces_append, pieces_whole whole, inked_append,
      inked_self (List.forall_mem_singleton.2 shown), List.append_assoc, List.singleton_append, importStatements,
      if_neg (by rw [quoteless]; decide), ih]
    simp

variable {text : String} {ls rest : List (List Char)} {l : List Char}

/-- The names of a text whose first constant stands behind lines that declare none. -/
theorem declaredNames_lines (lines : inked (linesOf text.toList) = ls ++ l :: rest)
    (other : ∀ l ∈ ls, declares l = false) (constant : declares l = true) :
    declaredNames text = (importStatements [] ls).flatMap importNames ++
      constantName l :: (rest.filter declares).map constantName := by
  have none : ls.filter declares = [] := List.filter_eq_nil_iff.2 fun l mem => by simp [other l mem]
  rw [declaredNames, lines, List.takeWhile_append_of_pos fun l mem => by simp [other l mem], List.takeWhile_cons,
    if_neg (by simp [constant]), List.append_nil, List.filter_append, none, List.nil_append, List.filter_cons,
    if_pos constant, List.map_cons]

theorem constantName_start {name : String} (isName : IsName name) {c : Char} (stop : isNameChar c = false)
    (r : List Char) : constantName ("const ".toList ++ (name.toList ++ c :: r)) = name := by
  rw [constantName, List.drop_left, List.takeWhile_append_of_pos isName.chars, List.takeWhile_cons,
    if_neg (by simp [stop]), List.append_nil, String.ofList_toList]

end Statements

end Script

namespace Module
open Format Script Text

theorem IsInner.declares {l : List Char} (h : IsInner l) : declares l = false := by
  cases l with
  | nil => rfl
  | cons c r => exact declares_other (h c rfl).1

/-- A line that is moved in form has the start that it had. -/
theorem IsInner.line {l : List Char} (h : IsInner l) (o : Options) : IsInner (line o l) := by
  have untabbed : untab o.indent l = l := by
    cases l with
    | nil => rfl
    | cons c r =>
      have other : (c == '\t') = false := by simpa using (h c rfl).2
      simp [untab, other]
  intro c mem
  rw [Format.line, untabbed] at mem
  split at mem
  · have front : dropEndWhile isBlank l <+: l := by
      rw [dropEndWhile, ← List.reverse_suffix, List.reverse_reverse]
      exact List.dropWhile_suffix _
    obtain ⟨r, text⟩ := List.head?_eq_some_iff.1 mem
    rw [text] at front
    obtain ⟨rest, same⟩ := front
    exact h c (by rw [← same]; rfl)
  · exact h c mem

namespace Entry

variable {e : Entry}

theorem Listed.text (h : e.Listed) : e.line.toList = ("import " ++ clauseText e.2.main e.2.named).toList ++
    (stringLiteral e.1 ++ ";").toList := by
  rw [line, importLine_eq e.1 (given_of_names h.main)]
  simp

theorem Listed.statement (h : e.Listed) (rest : List (List Char)) :
    importStatements [] (shownLines e.line ++ rest) = e.line.toList :: importStatements [] rest := by
  rw [shownLines, h.text, (isClause_front h.main h.named).statement, List.nil_append]

theorem statements_lines {es : List Entry} (h : ∀ e ∈ es, e.Listed) :
    importStatements [] (es.flatMap fun e => shownLines e.line) = es.map fun e => e.line.toList := by
  induction es with
  | nil => rfl
  | cons e r ih =>
    obtain ⟨first, rest⟩ := List.forall_mem_cons.1 h
    rw [List.flatMap_cons, first.statement, ih rest, List.map_cons]

theorem importNames_clause {parts : List Char} {source : String}
    (clean : ∀ c ∈ "import ".toList ++ parts ++ " from ".toList, (c != '"') = true) :
    importNames ("import ".toList ++ parts ++ " from ".toList ++ (stringLiteral source ++ ";").toList) =
      (pieces ',' parts).map lastWord := by
  have quote : (stringLiteral source ++ ";").toList = '"' :: (source.toList.flatMap spelling ++ ['"', ';']) := by
    simp [toList_stringLiteral]
  rw [importNames, List.takeWhile_append_of_pos clean, quote, List.takeWhile_cons, if_neg (by decide),
    List.append_nil, Scaffold.between_written]

/-- The line of an entry binds the names of the entry. -/
theorem Listed.importNames (h : e.Listed) : importNames e.line.toList = e.2.locals := by
  have clean := (isClause_front h.main h.named).chars
  have text := h.text
  have isMain := h.main
  have exported := h.named
  obtain ⟨source, main, named⟩ := e
  replace clean : ∀ c ∈ ("import " ++ clauseText main named).toList, (c != '"') = true := by
    intro c mem
    refine bne_iff_ne.2 ?_
    rintro rfl
    exact (clean _ mem).elim (by decide) (by decide)
  have alone {d : String} (isName : IsName d) : lastWord d.toList = d := by
    have written : lastWord ([] ++ d.toList ++ []) = d := lastWord_name (by simp) isName (by simp)
    rwa [List.nil_append, List.append_nil] at written
  have braces (front : List Char) (before : ∀ c ∈ front.getLast?, isNameChar c = false) (clear : ',' ∉ front)
      (given : named ≠ []) : (pieces ',' (front ++ (specifierTexts named).toList ++ [' ', '\x7d'])).map lastWord =
        named.map (·.2) :=
    lastWords_specifiers given exported before clear (forall_chars (by decide)) (by decide)
  rw [text]
  change Script.importNames (("import " ++ clauseText main named).toList ++ (stringLiteral source ++ ";").toList) =
    main.toList ++ named.map (·.2)
  clear text h
  cases main with
  | none =>
    cases named with
    | nil =>
      have bare : Scaffold.between "import " " from " "import ".toList = none := by decide
      have quote : (stringLiteral source ++ ";").toList = '"' :: (source.toList.flatMap spelling ++ ['"', ';']) := by
        simp [toList_stringLiteral]
      have front : ("import " ++ clauseText none []).toList = "import ".toList := rfl
      rw [front] at clean ⊢
      rw [Script.importNames, List.takeWhile_append_of_pos clean, quote, List.takeWhile_cons, if_neg (by decide),
        List.append_nil, bare]
      rfl
    | cons b r =>
      have front : ("import " ++ clauseText none (b :: r)).toList = "import ".toList ++
          (['\x7b', ' '] ++ (specifierTexts (b :: r)).toList ++ [' ', '\x7d']) ++ " from ".toList := by
        simp [clauseText, bracesText]
      rw [front] at clean ⊢
      rw [importNames_clause clean, braces _ (by rintro c ⟨⟩; rfl) (by decide) (by simp)]
      rfl
  | some d =>
    have isName : IsName d := isMain d rfl
    cases named with
    | nil =>
      have front : ("import " ++ clauseText (some d) []).toList = "import ".toList ++ d.toList ++ " from ".toList := by
        simp [clauseText]
      rw [front] at clean ⊢
      rw [importNames_clause clean, pieces_whole (comma_name isName), List.map_singleton, alone isName]
      rfl
    | cons b r =>
      have front : ("import " ++ clauseText (some d) (b :: r)).toList = "import ".toList ++ (d.toList ++ ',' ::
          ([' ', '\x7b', ' '] ++ (specifierTexts (b :: r)).toList ++ [' ', '\x7d'])) ++ " from ".toList := by
        simp [clauseText, bracesText]
      rw [front] at clean ⊢
      rw [importNames_clause clean, pieces_append, pieces_whole (comma_name isName), List.map_append,
        List.map_singleton, alone isName, braces _ (by rintro c ⟨⟩; rfl) (by decide) (by simp)]
      rfl

end Entry

theorem constantName_componentLine {name : String} (isName : IsName name) :
    constantName (componentLine name).toList = name := by
  have text : (componentLine name).toList =
      "const ".toList ++ (name.toList ++ ':' :: " React.FC = () => \x7b".toList) := by
    simp [componentLine]
  rw [text, constantName_start isName rfl]

/-- In form the text of a module declares the names of its imports and the name of its component, and no
others. -/
theorem declaredNames_module {m : Module} (h : ∀ e : Entry, e ∈ m.imports → e.Listed) {f : OutputFile}
    (source : f.kind.category = .source) {name : Option String} (content : f.content = m.text name)
    (o : Options) : declaredNames (formed o f).content =
      (m.headerEntries.flatMap fun e => e.2.locals) ++ [toIdentifier ((givenText name).getD m.name)] := by
  have listed := listed_headerEntries h
  have heading := Entry.isHeading_lines listed
  obtain ⟨rest, inner, lines⟩ := inked_text_module h name
  let l := (componentLine (toIdentifier ((givenText name).getD m.name))).toList
  have imports : (importStatements [] (m.headerEntries.flatMap fun e => shownLines e.line)).flatMap importNames =
      m.headerEntries.flatMap fun e => e.2.locals := by
    rw [Entry.statements_lines listed, List.flatMap_map]
    exact List.flatMap_congr fun e mem => (listed e mem).importNames
  have names {text : String} {rest : List (List Char)} (inner : ∀ l ∈ rest, IsInner l)
      (lines : inked (linesOf text.toList) = (m.headerEntries.flatMap fun e => shownLines e.line) ++ l :: rest) :
      declaredNames text = (m.headerEntries.flatMap fun e => e.2.locals) ++
        [toIdentifier ((givenText name).getD m.name)] := by
    have none : rest.filter declares = [] :=
      List.filter_eq_nil_iff.2 fun l mem => by simp [(inner l mem).declares]
    rw [declaredNames_lines lines heading.other (declares_componentLine _), imports, none,
      constantName_componentLine (isName_toIdentifier _)]
    rfl
  obtain form | same := formed_source source o
  · have kept : (m.headerEntries.flatMap fun e => shownLines e.line).map (line o) =
        m.headerEntries.flatMap fun e => shownLines e.line :=
      (List.map_congr_left fun l mem => (heading.tidy l mem).line_eq).trans (List.map_id _)
    have formed : inked (linesOf (Format.text o f.content).toList) =
        (m.headerEntries.flatMap fun e => shownLines e.line) ++ l :: rest.map (line o) := by
      rw [inked_text, content, lines, List.map_append, List.map_cons, kept, (isTidy_componentLine _).line_eq]
    rw [form]
    exact names (List.forall_mem_map.2 fun l mem => (inner l mem).line o) formed
  · rw [same, content]
    exact names inner lines

end Module

end Pagesmith
