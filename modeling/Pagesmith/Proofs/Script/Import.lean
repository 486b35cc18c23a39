import Pagesmith.Proofs.Script.Literal
import Pagesmith.Proofs.Text.Name
import Pagesmith.Script.Statement

/-!
Import lines, read back. A line is cut into words and signs up to the quote of its source; what
stands between is read by the grammar of import clauses, and the source as a string. A line that
was written for names is read as what it was written for.
-/

namespace Pagesmith.Script
open Text

/-- A word or a sign of a line. -/
inductive Token where
  | word (letters : List Char)
  | sign (c : Char)
deriving DecidableEq

/-- The words and signs of a line; blanks only keep words apart. -/
def tokens : List Char → List Token
  | [] => []
  | c :: r =>
    if isNameChar c then
      match tokens r with
      | .word w :: ts =>
        if r.head?.any isNameChar then .word (c :: w) :: ts else .word [c] :: .word w :: ts
      | ts => .word [c] :: ts
    else if c == ' ' then tokens r
    else .sign c :: tokens r

/-- One binding between braces: an export, and the name it gets if it is another. -/
structure Specifier where
  exportName : String
  renamed : Option String
deriving DecidableEq

/-- The name of the binding in the module. -/
def Specifier.localName (s : Specifier) : String := s.renamed.getD s.exportName

/-- What an import line says. -/
structure ImportLine where
  source : String
  main : Option String
  named : List Specifier
deriving DecidableEq

/-- The bindings up to the closing brace, and what follows it. -/
def readSpecifiers : List Token → Option (List Specifier × List Token)
  | .word x :: .sign '\x7d' :: r => some ([⟨String.ofList x, none⟩], r)
  | .word x :: .sign ',' :: r => do
    let (more, rest) ← readSpecifiers r
    some (⟨String.ofList x, none⟩ :: more, rest)
  | .word x :: .word ['a', 's'] :: .word n :: .sign '\x7d' :: r =>
    some ([⟨String.ofList x, some (String.ofList n)⟩], r)
  | .word x :: .word ['a', 's'] :: .word n :: .sign ',' :: r => do
    let (more, rest) ← readSpecifiers r
    some (⟨String.ofList x, some (String.ofList n)⟩ :: more, rest)
  | _ => none

/-- The bindings between braces, in front of the word before the source. -/
def readBraces (ts : List Token) : Option (List Specifier) :=
  match readSpecifiers ts with
  | some (named, [.word ['f', 'r', 'o', 'm']]) => some named
  | _ => none

/-- What stands between the first word and the source: the default binding and those between
braces, or nothing at all. -/
def readClause : List Token → Option (Option String × List Specifier)
  | [] => some (none, [])
  | [.word d, .word ['f', 'r', 'o', 'm']] => some (some (String.ofList d), [])
  | .word d :: .sign ',' :: .sign '\x7b' :: r => (readBraces r).map (some (String.ofList d), ·)
  | .sign '\x7b' :: r => (readBraces r).map (none, ·)
  | _ => none

/-- A string with a semicolon behind it. -/
def readSource (cs : List Char) : Option String :=
  match cs.getLast?, Value.Reader.document none cs.dropLast with
  | some ';', .ok (.str s) => some s
  | _, _ => none

/-- An import line. -/
def readImport (line : List Char) : Option ImportLine :=
  match tokens (line.takeWhile (· != '"')) with
  | .word ['i', 'm', 'p', 'o', 'r', 't'] :: ts => do
    let (main, named) ← readClause ts
    let source ← readSource (line.dropWhile (· != '"'))
    some ⟨source, main, named⟩
  | _ => none

theorem tokens_sign {c : Char} (h : isNameChar c = false) (space : c ≠ ' ') (r : List Char) :
    tokens (c :: r) = .sign c :: tokens r := by
  simp [tokens, h, space]

theorem tokens_space (r : List Char) : tokens (' ' :: r) = tokens r := rfl

theorem tokens_letters {c : Char} {w : List Char} (letters : ∀ d ∈ c :: w, isNameChar d = true)
    {e : Char} (ends : isNameChar e = false) (r : List Char) :
    tokens (c :: (w ++ e :: r)) = .word (c :: w) :: tokens (e :: r) := by
  induction w generalizing c with
  | nil =>
    rw [List.nil_append, tokens, if_pos (letters c (by simp))]
    split
    · next read => simp [read, ends]
    · rfl
  | cons d w ih =>
    have more := ih fun b mem => letters b (List.mem_cons_of_mem c mem)
    rw [List.cons_append, tokens, if_pos (letters c (by simp)), more]
    simp [letters d (by simp)]

/-- A name is one word if something else follows it. -/
theorem tokens_name {name : String} (h : IsName name) {e : Char} (ends : isNameChar e = false)
    (r : List Char) : tokens (name.toList ++ e :: r) = .word name.toList :: tokens (e :: r) := by
  have letters := h.chars
  obtain ⟨c, w, text, -, -⟩ := h
  rw [text] at letters ⊢
  exact tokens_letters letters ends r

/-- What is read for one binding. -/
def specifier (b : String × String) : Specifier :=
  ⟨b.1, if b.1 == b.2 then none else some b.2⟩

theorem specifier_localName (b : String × String) : (specifier b).localName = b.2 := by
  rw [specifier, Specifier.localName]
  split
  · next same => exact eq_of_beq same
  · rfl

/-- A binding is renamed exactly if its name is not that of the export. -/
theorem specifier_renamed (b : String × String) :
    (specifier b).renamed = if b.1 = b.2 then none else some b.2 := by
  simp [specifier]

/-- The words of one binding. -/
def specifierWords (b : String × String) : List Token :=
  if b.1 == b.2 then [.word b.1.toList]
  else [.word b.1.toList, .word ['a', 's'], .word b.2.toList]

/-- A binding of a name to a name. -/
def NamesOnly (b : String × String) : Prop := IsName b.1 ∧ IsName b.2

theorem tokens_specifier {b : String × String} (h : NamesOnly b) {e : Char}
    (ends : isNameChar e = false) (r : List Char) :
    tokens ((importSpecifier b.1 b.2).toList ++ e :: r) = specifierWords b ++ tokens (e :: r) := by
  rw [importSpecifier, specifierWords]
  split
  · exact tokens_name h.1 ends r
  · have between : (b.1 ++ " as " ++ b.2).toList ++ e :: r =
        b.1.toList ++ ' ' :: ("as".toList ++ ' ' :: (b.2.toList ++ e :: r)) := by
      simp
    have as : IsName "as" := by decide
    rw [between, tokens_name h.1 rfl, tokens_space, tokens_name as rfl, tokens_space,
      tokens_name h.2 ends]
    rfl

theorem readSpecifiers_last (b : String × String) (ts : List Token) :
    readSpecifiers (specifierWords b ++ .sign '\x7d' :: ts) = some ([specifier b], ts) := by
  rw [specifierWords, specifier]
  split <;> simp [readSpecifiers]

theorem readSpecifiers_more (b : String × String) {ts rest : List Token} {more : List Specifier}
    (h : readSpecifiers ts = some (more, rest)) :
    readSpecifiers (specifierWords b ++ .sign ',' :: ts) = some (specifier b :: more, rest) := by
  rw [specifierWords, specifier]
  split <;> simp [readSpecifiers, h]

/-- The bindings of a line between its braces. -/
def specifierTexts (named : List (String × String)) : String :=
  String.intercalate ", " (named.map fun b => importSpecifier b.1 b.2)

/-- Bindings that were written one after the other are read one after the other. -/
theorem readSpecifiers_written {named : List (String × String)} (given : named ≠ [])
    (names : ∀ b ∈ named, NamesOnly b) (r : List Char) :
    readSpecifiers (tokens ((specifierTexts named).toList ++ ' ' :: '\x7d' :: r)) =
      some (named.map specifier, tokens r) := by
  induction named with
  | nil => contradiction
  | cons b more ih =>
    have first := names b (by simp)
    cases more with
    | nil =>
      have one : specifierTexts [b] = importSpecifier b.1 b.2 := by simp [specifierTexts]
      rw [one, tokens_specifier first rfl, tokens_space, tokens_sign rfl (by decide)]
      exact readSpecifiers_last b _
    | cons b' more =>
      have rest := ih (by simp) fun c mem => names c (List.mem_cons_of_mem b mem)
      have next : (specifierTexts (b :: b' :: more)).toList ++ ' ' :: '\x7d' :: r =
          (importSpecifier b.1 b.2).toList ++
            ',' :: ' ' :: ((specifierTexts (b' :: more)).toList ++ ' ' :: '\x7d' :: r) := by
        simp [specifierTexts, String.intercalate_cons_cons]
      rw [next, tokens_specifier first rfl, tokens_sign rfl (by decide), tokens_space]
      exact readSpecifiers_more b rest

/-- The braces of a line, up to its source. -/
def bracesText (named : List (String × String)) : String :=
  "\x7b " ++ specifierTexts named ++ " \x7d from "

/-- What a line has between its first word and its source. -/
def clauseText : Option String → List (String × String) → String
  | none, [] => ""
  | some d, [] => d ++ " from "
  | none, named => bracesText named
  | some d, named => d ++ ", " ++ bracesText named

theorem importLine_eq (source : String) {main : Option String} (given : main ≠ some "")
    (named : List (String × String)) :
    importLine source main named =
      "import " ++ clauseText main named ++ stringLiteral source ++ ";" := by
  have main_given {d : String} (same : main = some d) : (d == "") = false := by
    refine beq_false_of_ne ?_
    rintro rfl
    exact given same
  match main, named with
  | none, [] => rfl
  | none, b :: r => simp [importLine, clauseText, bracesText, specifierTexts, String.append_assoc]
  | some d, [] => simp [importLine, clauseText, main_given rfl, String.append_assoc]
  | some d, b :: r =>
    have comma (t : String) : ", " ++ ("\x7b " ++ t) = ", \x7b " ++ t := by
      rw [← String.append_assoc]
      rfl
    simp [importLine, clauseText, bracesText, specifierTexts, main_given rfl, String.append_assoc,
      comma]

theorem given_of_names {main : Option String} (isName : ∀ d ∈ main, IsName d) : main ≠ some "" := by
  rintro rfl
  obtain ⟨c, r, text, -⟩ := isName "" rfl
  cases text

/-- A character of a name, or one that stands between the names of a line. -/
def isClauseChar (c : Char) : Bool :=
  isNameChar c || c == ' ' || c == ',' || c == '\x7b' || c == '\x7d'

/-- Only names and what stands between them. -/
def ClauseOnly (s : String) : Prop := ∀ c ∈ s.toList, isClauseChar c = true

instance (s : String) : Decidable (ClauseOnly s) :=
  decidable_of_iff (s.toList.all isClauseChar = true) List.all_eq_true

theorem ClauseOnly.append {s t : String} (h : ClauseOnly s) (h' : ClauseOnly t) :
    ClauseOnly (s ++ t) := by
  intro c mem
  rw [String.toList_append] at mem
  exact (List.mem_append.1 mem).elim (h c) (h' c)

theorem clauseOnly_name {name : String} (h : IsName name) : ClauseOnly name := by
  intro c mem
  simp [isClauseChar, h.chars c mem]

theorem clauseOnly_specifier {b : String × String} (h : NamesOnly b) :
    ClauseOnly (importSpecifier b.1 b.2) := by
  rw [importSpecifier]
  split
  · exact clauseOnly_name h.1
  · exact ((clauseOnly_name h.1).append (by decide)).append (clauseOnly_name h.2)

theorem clauseOnly_braces {named : List (String × String)} (names : ∀ b ∈ named, NamesOnly b) :
    ClauseOnly (bracesText named) := by
  have inside : ClauseOnly (specifierTexts named) := by
    intro c mem
    obtain between | ⟨t, found, mem⟩ := Value.mem_intercalate mem
    · exact (by decide : ClauseOnly ", ") c between
    · obtain ⟨b, listed, rfl⟩ := List.mem_map.1 found
      exact clauseOnly_specifier (names b listed) c mem
  exact (ClauseOnly.append (by decide) inside).append (by decide)

theorem readSource_written (source : String) :
    readSource ((stringLiteral source).toList ++ [';']) = some source := by
  rw [readSource, List.getLast?_concat, List.dropLast_concat,
    Value.Reader.document_writes (writes_stringLiteral none source)]
  rfl

theorem tokens_import (text : String) :
    tokens ("import " ++ text).toList = .word "import".toList :: tokens text.toList := by
  have isName : IsName "import" := by decide
  have split : ("import " ++ text).toList = "import".toList ++ ' ' :: text.toList := by simp
  rw [split, tokens_name isName rfl, tokens_space]

section Written

variable {main : Option String} (isName : ∀ d ∈ main, IsName d) {named : List (String × String)}
  (names : ∀ b ∈ named, NamesOnly b)
include isName names

theorem clauseOnly_clauseText : ClauseOnly (clauseText main named) := by
  have braces := clauseOnly_braces names
  match main, named with
  | none, [] => decide
  | some d, [] => exact (clauseOnly_name (isName d rfl)).append (by decide)
  | none, b :: r => exact braces
  | some d, b :: r => exact ((clauseOnly_name (isName d rfl)).append (by decide)).append braces

omit isName in
theorem readBraces_written (given : named ≠ []) :
    ∃ ts, tokens (bracesText named).toList = .sign '\x7b' :: ts ∧
      readBraces ts = some (named.map specifier) := by
  have text : (bracesText named).toList =
      '\x7b' :: ' ' :: ((specifierTexts named).toList ++ ' ' :: '\x7d' :: " from ".toList) := by
    simp [bracesText]
  rw [text, tokens_sign rfl (by decide), tokens_space]
  refine ⟨_, rfl, ?_⟩
  rw [readBraces, readSpecifiers_written given names]
  rfl

theorem readClause_written :
    readClause (tokens (clauseText main named).toList) = some (main, named.map specifier) := by
  match main, named with
  | none, [] => rfl
  | some d, [] =>
    have text : (clauseText (some d) []).toList = d.toList ++ ' ' :: "from ".toList := by
      simp [clauseText]
    have from_ : tokens (' ' :: "from ".toList) = [.word ['f', 'r', 'o', 'm']] := rfl
    rw [text, tokens_name (isName d rfl) rfl, from_, readClause, String.ofList_toList]
    rfl
  | none, b :: r =>
    obtain ⟨ts, braces, read⟩ := readBraces_written names (by simp)
    rw [clauseText, braces, readClause, read]
    · rfl
    · simp
  | some d, b :: r =>
    obtain ⟨ts, braces, read⟩ := readBraces_written names (by simp)
    have text : (clauseText (some d) (b :: r)).toList =
        d.toList ++ ',' :: ' ' :: (bracesText (b :: r)).toList := by
      simp [clauseText]
    rw [text, tokens_name (isName d rfl) rfl, tokens_sign rfl (by decide), tokens_space, braces,
      readClause, read, String.ofList_toList]
    rfl

/-- A line is read as what it was written for. -/
theorem readImport_importLine (source : String) :
    readImport (importLine source main named).toList =
      some ⟨source, main, named.map specifier⟩ := by
  let front := "import " ++ clauseText main named
  have clean : ∀ c ∈ front.toList, (c != '"') = true := by
    intro c mem
    have inside := ClauseOnly.append (by decide) (clauseOnly_clauseText isName names) c mem
    refine bne_iff_ne.2 ?_
    rintro rfl
    exact absurd inside (by decide)
  have text : (importLine source main named).toList =
      front.toList ++ '"' :: (source.toList.flatMap spelling ++ ['"', ';']) := by
    rw [importLine_eq source (given_of_names isName)]
    simp [front, toList_stringLiteral]
  have quoted : '"' :: (source.toList.flatMap spelling ++ ['"', ';']) =
      (stringLiteral source).toList ++ [';'] := by
    simp [toList_stringLiteral]
  rw [readImport, text, List.takeWhile_append_of_pos clean, List.dropWhile_append_of_pos clean]
  simp only [List.takeWhile_cons, List.dropWhile_cons, bne_self_eq_false, Bool.false_eq_true,
    if_false, List.append_nil]
  rw [tokens_import, quoted, readSource_written]
  change (do
    let (main, named) ← readClause (tokens (clauseText main named).toList)
    some (⟨source, main, named⟩ : ImportLine)) = _
  rw [readClause_written isName names]
  rfl

end Written

example : readImport "import A, \x7b B, C as D \x7d from \"s\";".toList =
    some ⟨"s", some "A", [⟨"B", none⟩, ⟨"C", some "D"⟩]⟩ := by
  decide

end Pagesmith.Script
