import Mathlib.Data.Set.Insert
import Pagesmith.Proofs.Job
import Pagesmith.Proofs.Value.Grammar
import Pagesmith.Proofs.Value.Json
import Pagesmith.Script.Literal

/-!
The escaping contract of literals. The escapes for angle brackets, the ampersand and the two line
separators are made in the whole text of a value. They only ever meet characters that stand for
themselves inside a string, where one more numeric escape spells the same character, so the text
still writes the value it was made from.
-/

namespace Pagesmith.Script
open Value Value.Reader

/-- A character that can neither open markup nor end a line of code. -/
def IsInert (c : Char) : Prop :=
  c ≠ '<' ∧ c ≠ '>' ∧ c ≠ '&' ∧ c.toNat ≠ 0x2028 ∧ c.toNat ≠ 0x2029 ∧ 0x20 ≤ c.toNat

instance (c : Char) : Decidable (IsInert c) := inferInstanceAs (Decidable (_ ∧ _))

theorem isInert_number {c : Char} (h : isNumberChar c = true) : IsInert c := by
  have shown := shown_number h
  obtain rfl | rfl | rfl | range := isNumberChar_range h
  · decide
  · decide
  · decide
  · have other {d : Char} (n : d.toNat < 48 ∨ 57 < d.toNat ∧ d.toNat < 65 ∨ 122 < d.toNat) :
        c ≠ d := by
      rintro rfl
      omega
    exact ⟨other (by decide), other (by decide), other (by decide), by omega, by omega, shown⟩

theorem codeChar_inert {c : Char} (h : IsInert c) : codeChar c = [c] := by
  obtain ⟨less, greater, ampersand, line, paragraph, -⟩ := h
  simp [codeChar, less, greater, ampersand, line, paragraph]

theorem isInert_codeChar {c : Char} (shown : 0x20 ≤ c.toNat) : ∀ d ∈ codeChar c, IsInert d := by
  intro d mem
  rw [codeChar] at mem
  split at mem
  case isTrue =>
    simp only [List.mem_cons] at mem
    obtain rfl | rfl | mem := mem
    · simp [IsInert]
    · simp [IsInert]
    · exact isInert_number (isNumberChar_hexDigits 4 _ d mem)
  case isFalse inert =>
    obtain rfl := List.mem_singleton.1 mem
    simp only [Bool.or_eq_true, beq_iff_eq, not_or] at inert
    obtain ⟨⟨⟨⟨less, greater⟩, ampersand⟩, line⟩, paragraph⟩ := inert
    exact ⟨less, greater, ampersand, line, paragraph, shown⟩

theorem flatMap_codeChar {cs : List Char} (h : ∀ c ∈ cs, IsInert c) : cs.flatMap codeChar = cs := by
  induction cs with
  | nil => rfl
  | cons c r ih =>
    rw [List.flatMap_cons, codeChar_inert (h c (by simp)), ih fun d mem => h d (by simp [mem])]
    rfl

theorem toList_codeText (s : String) : (codeText s).toList = s.toList.flatMap codeChar :=
  String.toList_ofList

theorem isInert_codeText {s : String} (shown : ∀ c ∈ s.toList, 0x20 ≤ c.toNat) :
    ∀ d ∈ (codeText s).toList, IsInert d := by
  intro d mem
  rw [toList_codeText, List.mem_flatMap] at mem
  obtain ⟨c, found, mem⟩ := mem
  exact isInert_codeChar (shown c found) d mem

/-- What a character of a string becomes in code. -/
def spelling (c : Char) : List Char := (jsonChar c).flatMap codeChar

theorem spells_spelling (c : Char) : Spells (spelling c) (.char c) := by
  rw [spelling, jsonChar]
  split_ifs with quote backslash feed ret tab back form control
  · obtain rfl := eq_of_beq quote
    exact .short '"' '"' rfl
  · obtain rfl := eq_of_beq backslash
    exact .short '\\' '\\' rfl
  · obtain rfl := eq_of_beq feed
    exact .short 'n' '\n' rfl
  · obtain rfl := eq_of_beq ret
    exact .short 'r' '\r' rfl
  · obtain rfl := eq_of_beq tab
    exact .short 't' '\t' rfl
  · have code : Char.ofNat 8 = c := by rw [← eq_of_beq back, Char.ofNat_toNat]
    exact .short 'b' c (by rw [← code]; rfl)
  · have code : Char.ofNat 12 = c := by rw [← eq_of_beq form, Char.ofNat_toNat]
    exact .short 'f' c (by rw [← code]; rfl)
  · rw [flatMap_codeChar]
    · exact .code c (by omega)
    · simp only [List.forall_mem_cons]
      exact ⟨by simp [IsInert], by simp [IsInert],
        fun d mem => isInert_number (isNumberChar_hexDigits 4 _ d mem)⟩
  · rw [List.flatMap_singleton, codeChar]
    split
    case isTrue marked =>
      refine .code c ?_
      simp only [Bool.or_eq_true, beq_iff_eq] at marked
      obtain (((rfl | rfl) | rfl) | line) | paragraph := marked
      · decide
      · decide
      · decide
      · omega
      · omega
    case isFalse =>
      exact .plain c (by simpa using quote) (by simpa using backslash) (by omega)

theorem toList_stringLiteral (s : String) :
    (stringLiteral s).toList = '"' :: (s.toList.flatMap spelling ++ ['"']) := by
  have quote : codeChar '"' = ['"'] := rfl
  have body : (s.toList.flatMap jsonChar).flatMap codeChar = s.toList.flatMap spelling :=
    List.flatMap_assoc
  rw [stringLiteral, toList_codeText, jsonString, String.toList_ofList, List.cons_append,
    List.flatMap_cons, List.flatMap_append, List.flatMap_singleton, quote, body]
  rfl

/-- A character that is escaped neither in JSON nor in code. -/
theorem spelling_inert {c : Char} (inert : IsInert c) (quote : c ≠ '"') (backslash : c ≠ '\\') :
    spelling c = [c] := by
  have shown : 0x20 ≤ c.toNat := inert.2.2.2.2.2
  have control {d : Char} (low : d.toNat < 0x20) : c ≠ d := by
    rintro rfl
    omega
  have plain : jsonChar c = [c] := by
    simp [jsonChar, quote, backslash, @control '\n' (by decide), @control '\r' (by decide),
      @control '\t' (by decide), show c.toNat ≠ 8 by omega, show c.toNat ≠ 12 by omega,
      show ¬ c.toNat < 0x20 by omega]
  rw [spelling, plain, List.flatMap_singleton, codeChar_inert inert]

/-- A text without escapes stands between quotes as it is. -/
theorem stringLiteral_plain {s : String} (plain : ∀ c ∈ s.toList, spelling c = [c]) :
    stringLiteral s = "\"" ++ s ++ "\"" := by
  have body : s.toList.flatMap spelling = s.toList.flatMap fun c => [c] :=
    List.flatMap_congr plain
  rw [← String.toList_inj, toList_stringLiteral, body, List.flatMap_singleton']
  simp

theorem spellsAll_spelling (s : String) : SpellsAll (s.toList.flatMap spelling) (Text.Loose.ofString s) :=
  .ofString spells_spelling s

theorem writes_stringLiteral (limit : Option Nat) (s : String) :
    Writes limit (.str s) (stringLiteral s).toList := by
  rw [toList_stringLiteral]
  exact .str (spellsAll_spelling s)

/-- The body of a string holds no quote that no backslash stands before, nor a backslash that
stands before the closing quote. -/
def quoteFree : List Char → Bool
  | [] => true
  | ['\\'] => false
  | '\\' :: _ :: r => quoteFree r
  | c :: r => c != '"' && quoteFree r

theorem quoteFree_cons {c : Char} (quote : c ≠ '"') (backslash : c ≠ '\\') (r : List Char) :
    quoteFree (c :: r) = quoteFree r := by
  rw [quoteFree]
  · simp [quote]
  · simp [backslash]
  · simp [backslash]

theorem quoteFree_append {cs : List Char} (h : ∀ c ∈ cs, isNumberChar c = true) (r : List Char) :
    quoteFree (cs ++ r) = quoteFree r := by
  induction cs with
  | nil => rfl
  | cons c cs ih =>
    have letter := h c (by simp)
    have quote : c ≠ '"' := by rintro rfl; exact absurd letter (by decide)
    have backslash : c ≠ '\\' := by rintro rfl; exact absurd letter (by decide)
    rw [List.cons_append, quoteFree_cons quote backslash, ih fun d mem => h d (by simp [mem])]

theorem quoteFree_spells {e : List Char} {x : Text.Letter} (h : Spells e x) (r : List Char) :
    quoteFree (e ++ r) = quoteFree r := by
  cases h with
  | plain _ quote backslash => exact quoteFree_cons quote backslash r
  | short => rfl
  | numeric => exact quoteFree_append (isNumberChar_hexDigits 4 _) r

theorem quoteFree_spellsAll {body : List Char} {s : List Text.Letter} (h : SpellsAll body s) :
    quoteFree body = true := by
  induction h with
  | nil => rfl
  | cons spells _ ih => rw [quoteFree_spells spells, ih]

mutual

/-- A value that JSON has a form for. A decimal counts as a token, which has to read back. -/
def IsJson : Value → Prop
  | .null | .bool _ | .int _ | .str _ | .torn _ => True
  | .float x => scalar none (x.text jsonNumbers).toList = .ok (.float x, [])
  | .list xs => AllJson xs
  | .dict es => (es.map (·.1)).Nodup ∧ AllEntriesJson es
  | _ => False

/-- All items have a form in JSON. -/
def AllJson : List Value → Prop
  | [] => True
  | x :: r => IsJson x ∧ AllJson r

/-- The values of all entries have a form in JSON. -/
def AllEntriesJson : List (String × Value) → Prop
  | [] => True
  | (_, x) :: r => IsJson x ∧ AllEntriesJson r

end

mutual

theorem obstacles_isJson {v : Value} (h : IsJson v) : ∀ o ∈ v.obstacles, o = .notFinite ∨ o = .long := by
  match v with
  | .null | .bool _ | .str _ | .torn _ => simp [obstacles]
  | .int n =>
    rw [obstacles]
    split <;> simp
  | .float x =>
    rw [obstacles]
    split <;> simp
  | .list xs => exact obstacles_allJson (by simpa only [IsJson] using h)
  | .dict es =>
    simp only [IsJson] at h
    exact obstacles_allEntriesJson h.2

theorem obstacles_allJson {xs : List Value} (h : AllJson xs) :
    ∀ o ∈ obstaclesOfItems xs, o = .notFinite ∨ o = .long := by
  match xs with
  | [] => simp [obstaclesOfItems]
  | x :: r =>
    simp only [obstaclesOfItems, List.mem_append]
    rintro o (first | more)
    · exact obstacles_isJson h.1 o first
    · exact obstacles_allJson h.2 o more

theorem obstacles_allEntriesJson {es : List (String × Value)} (h : AllEntriesJson es) :
    ∀ o ∈ obstaclesOfEntries es, o = .notFinite ∨ o = .long := by
  match es with
  | [] => simp [obstaclesOfEntries]
  | (k, x) :: r =>
    simp only [obstaclesOfEntries, List.mem_append]
    rintro o (first | more)
    · exact obstacles_isJson h.1 o first
    · exact obstacles_allEntriesJson h.2 o more

end

theorem checkObstacles_outcome (os : List Obstacle) (log : List Notice) :
    (checkObstacles os log).1 = match os.findSome? stop? with
      | some f => .error f
      | none => .ok () := by
  induction os generalizing log with
  | nil => rfl
  | cons o r ih =>
    cases o with
    | alien typeName => exact ih (log ++ [alienNotice typeName])
    | circular | long => rfl
    | notFinite => exact ih log

/-- A literal only fails over the first obstacle that there is no literal with. -/
theorem literal_outcome (v : Value) (log : List Notice) :
    (literal v log).1 = match literalFault? v with
      | some f => .error f
      | none => .ok (literalText v) := by
  have checked := checkObstacles_outcome v.obstacles log
  simp only [literal, literalFault?, Bind.bind, ExceptT.bind, ExceptT.mk, StateT.bind]
  rcases result : checkObstacles v.obstacles log with ⟨outcome, log'⟩
  rw [result] at checked
  obtain rfl : outcome = _ := checked
  cases v.obstacles.findSome? stop? <;> rfl

/-- The faults over which literals fail. -/
def literalFaults : Set Fault := {.circular, .longNumber}

theorem of_literalFault? {v : Value} {f : Fault} (h : literalFault? v = some f) :
    f = .circular ∧ .circular ∈ v.obstacles ∨ f = .longNumber ∧ .long ∈ v.obstacles := by
  obtain ⟨o, mem, stops⟩ := List.exists_of_findSome?_eq_some h
  cases o with
  | alien | notFinite => cases stops
  | circular => exact .inl ⟨(Option.some.inj stops).symm, mem⟩
  | long => exact .inr ⟨(Option.some.inj stops).symm, mem⟩

theorem mem_literalFaults {v : Value} {f : Fault} (h : literalFault? v = some f) : f ∈ literalFaults := by
  obtain ⟨rfl, -⟩ | ⟨rfl, -⟩ := of_literalFault? h
  · exact .inl rfl
  · exact .inr rfl

theorem literal_completes {v : Value} {faults : Set Fault} (h : ∀ f, literalFault? v = some f → f ∈ faults) :
    (literal v).Completes faults (· = literalText v) := by
  intro log
  rw [literal_outcome]
  cases stops : literalFault? v with
  | some f => exact h f stops
  | none => exact rfl

theorem checkObstacles_notFinite {os : List Obstacle} (h : ∀ o ∈ os, o = .notFinite) :
    checkObstacles os = pure () := by
  induction os with
  | nil => rfl
  | cons o r ih =>
    obtain rfl := h o (by simp)
    exact ih fun o mem => h o (by simp [mem])

theorem literal_clean {v : Value} (h : v.obstacles = []) (log : List Notice) :
    literal v log = (.ok (literalText v), log) := by
  rw [literal, h]
  rfl

theorem literal_isJson {v : Value} (h : IsJson v) (short : .long ∉ v.obstacles) (log : List Notice) :
    literal v log = (.ok (literalText v), log) := by
  have finite : ∀ o ∈ v.obstacles, o = .notFinite := fun o mem =>
    (obstacles_isJson h o mem).resolve_right fun long => short (long ▸ mem)
  rw [literal, checkObstacles_notFinite finite]
  rfl

theorem checkObstacles_long {os : List Obstacle} (h : ∀ o ∈ os, o = .notFinite ∨ o = .long) (mem : .long ∈ os) :
    checkObstacles os = Job.fail .longNumber := by
  induction os with
  | nil => cases mem
  | cons o r ih =>
    obtain rfl | rfl := h o (by simp)
    · exact ih (fun o mem => h o (by simp [mem])) (by simpa using mem)
    · rfl

theorem literal_long {v : Value} (h : IsJson v) (long : .long ∈ v.obstacles) (log : List Notice) :
    literal v log = (.error .longNumber, log) := by
  rw [literal, checkObstacles_long (obstacles_isJson h) long]
  rfl

/-- A way to write characters in which numbers, words and what stands between values are as they are, and each
character of a string is spelled. -/
structure IsEncoding (encode : Char → List Char) : Prop where
  word : ∀ c, isNumberChar c = true → encode c = [c]
  mark : ∀ c ∈ ['"', '\\', '[', ']', '\x7b', '\x7d', ',', ':', ' '], encode c = [c]
  spells : ∀ c, Spells ((jsonChar c).flatMap encode) (.char c)

theorem isEncoding_codeChar : IsEncoding codeChar where
  word _ h := codeChar_inert (isInert_number h)
  mark := Text.forall_chars (by decide)
  spells := spells_spelling

theorem isSpace_one : IsSpace [' '] := by simp [IsSpace, isSpace]

section Encoding

variable {encode : Char → List Char}

/-- The text of the items or entries of a container, with its characters written so. -/
def separated (encode : Char → List Char) (texts : List String) : List Char :=
  (String.intercalate ", " texts).toList.flatMap encode

variable (encodes : IsEncoding encode)

theorem separated_one (t : String) : separated encode [t] = t.toList.flatMap encode := by
  simp [separated]

include encodes

theorem IsEncoding.words {cs : List Char} (h : ∀ c ∈ cs, isNumberChar c = true) : cs.flatMap encode = cs := by
  rw [List.flatMap_congr fun c mem => encodes.word c (h c mem), List.flatMap_singleton']

theorem IsEncoding.string (s : String) : (jsonString s).toList.flatMap encode =
    '"' :: ((s.toList.flatMap fun c => (jsonChar c).flatMap encode) ++ ['"']) := by
  have quote : encode '"' = ['"'] := encodes.mark _ (by simp)
  simp [jsonString, quote, List.flatMap_assoc]

theorem IsEncoding.spellsAll (s : String) :
    SpellsAll (s.toList.flatMap fun c => (jsonChar c).flatMap encode) (Text.Loose.ofString s) :=
  .ofString encodes.spells s

theorem IsEncoding.spellsLetter (x : Text.Letter) : Spells ((jsonLetter x).flatMap encode) x := by
  cases x with
  | char c => exact encodes.spells c
  | half n =>
    have backslash : encode '\\' = ['\\'] := encodes.mark _ (by simp)
    have word : ('u' :: Text.hexDigits 4 (0xd800 + n.val)).flatMap encode =
        'u' :: Text.hexDigits 4 (0xd800 + n.val) :=
      encodes.words (List.forall_mem_cons.2 ⟨rfl, isNumberChar_hexDigits 4 _⟩)
    rw [jsonLetter, List.flatMap_cons, backslash, word]
    exact .half n

theorem IsEncoding.torn (t : Text.Torn) : (jsonTorn t).toList.flatMap encode =
    '"' :: ((t.letters.flatMap fun x => (jsonLetter x).flatMap encode) ++ ['"']) := by
  have quote : encode '"' = ['"'] := encodes.mark _ (by simp)
  simp [jsonTorn, quote, List.flatMap_assoc]

theorem separated_more (t t' : String) (r : List String) :
    separated encode (t :: t' :: r) = t.toList.flatMap encode ++ ',' :: ' ' :: separated encode (t' :: r) := by
  have comma : ", ".toList.flatMap encode = [',', ' '] := by
    have marks : encode ',' = [','] ∧ encode ' ' = [' '] :=
      ⟨encodes.mark _ (by simp), encodes.mark _ (by simp)⟩
    simp [marks]
  simp only [separated, String.intercalate_cons_cons, String.toList_append, List.flatMap_append,
    comma, List.append_assoc, List.cons_append, List.nil_append]

omit encodes in
theorem toList_between (left right : Char) (hl : encode left = [left]) (hr : encode right = [right])
    (texts : List String) :
    (String.singleton left ++ String.intercalate ", " texts ++ String.singleton right).toList.flatMap encode =
      left :: (separated encode texts ++ [right]) := by
  simp [separated, hl, hr]

mutual

theorem writes_encoded {v : Value} (h : IsJson v) : Writes none v (v.json.toList.flatMap encode) := by
  have word {cs : List Char} (read : scalar none cs = .ok (v, [])) (plain : ∀ c ∈ cs, isNumberChar c = true) :
      Writes none v (cs.flatMap encode) := by
    rw [encodes.words plain]
    exact .scalar read
  match v with
  | .null => exact word rfl (Text.forall_chars (by decide))
  | .bool b => cases b <;> exact word rfl (Text.forall_chars (by decide))
  | .int n => exact word (scalar_int none n rfl) (isNumberChar_int n)
  | .float x => exact word (by simpa only [json, IsJson] using h) (isNumberChar_text x)
  | .str s =>
    rw [json, encodes.string]
    exact .str (encodes.spellsAll s)
  | .torn t =>
    rw [json, encodes.torn]
    exact .torn (.flatMap encodes.spellsLetter t.letters)
  | .list [] =>
    have text := toList_between '[' ']' (encodes.mark _ (by simp)) (encodes.mark _ (by simp)) []
    rw [json]
    exact text ▸ Writes.noItems isSpace_nil
  | .list (x :: r) =>
    have all : AllJson (x :: r) := by simpa only [IsJson] using h
    have items := writes_jsonItems all (by simp)
    have text := toList_between '[' ']' (encodes.mark _ (by simp)) (encodes.mark _ (by simp)) (jsonItems (x :: r))
    rw [json]
    exact text ▸ Writes.list (w := []) isSpace_nil items
  | .dict [] =>
    have text := toList_between '\x7b' '\x7d' (encodes.mark _ (by simp)) (encodes.mark _ (by simp)) []
    rw [json]
    exact text ▸ Writes.noEntries isSpace_nil
  | .dict (e :: r) =>
    simp only [IsJson] at h
    have entries := writes_jsonEntries h.2 (by simp)
    have text := toList_between '\x7b' '\x7d' (encodes.mark _ (by simp)) (encodes.mark _ (by simp))
      (jsonEntries (e :: r))
    rw [json]
    exact text ▸ Writes.dict (w := []) isSpace_nil entries h.1

theorem writes_jsonItems {xs : List Value} (h : AllJson xs) (some : xs ≠ []) :
    WritesItems none xs (separated encode (jsonItems xs) ++ [']']) := by
  match xs with
  | [x] =>
    have one := writes_encoded h.1
    rw [jsonItems, jsonItems, separated_one]
    exact .last one isSpace_nil
  | x :: x' :: r =>
    have one := writes_encoded h.1
    have more := writes_jsonItems h.2 (by simp)
    rw [jsonItems, jsonItems, separated_more encodes]
    rw [jsonItems] at more
    simpa using WritesItems.more one isSpace_nil isSpace_one more

theorem writes_jsonEntries {es : List (String × Value)} (h : AllEntriesJson es) (some : es ≠ []) :
    WritesEntries none es (separated encode (jsonEntries es) ++ ['\x7d']) := by
  have colon : ": ".toList.flatMap encode = [':', ' '] := by
    have marks : encode ':' = [':'] ∧ encode ' ' = [' '] :=
      ⟨encodes.mark _ (by simp), encodes.mark _ (by simp)⟩
    simp [marks]
  match es with
  | [(k, v)] =>
    have one := writes_encoded h.1
    rw [jsonEntries, jsonEntries, separated_one]
    simp only [String.toList_append, List.flatMap_append, encodes.string, colon]
    simpa using WritesEntries.last (encodes.spellsAll k) isSpace_nil isSpace_one one isSpace_nil
  | (k, v) :: (k', v') :: r =>
    have one := writes_encoded h.1
    have more := writes_jsonEntries h.2 (by simp)
    rw [jsonEntries, jsonEntries, separated_more encodes]
    rw [jsonEntries] at more
    simp only [String.toList_append, List.flatMap_append, encodes.string, colon]
    simpa using WritesEntries.more (encodes.spellsAll k) isSpace_nil isSpace_one one isSpace_nil isSpace_one more

end

end Encoding

/-- A value with a form in JSON is written by its text as it stands in code. -/
theorem writes_json {v : Value} (h : IsJson v) : Writes none v (v.json.toList.flatMap codeChar) :=
  writes_encoded isEncoding_codeChar h

/-- The literals of all values with a form in JSON, unless a whole number in one has no text, and of all texts are
inert, and both the grammar and the reader take them back to what they were made from. -/
theorem literals_inert_and_exact (v : Value) (h : IsJson v) (s : String) (log : List Notice) :
    (.long ∈ v.obstacles → literal v log = (.error .longNumber, log)) ∧
    (.long ∉ v.obstacles → literal v log = (.ok (literalText v), log)) ∧
    (∀ c ∈ (literalText v).toList, IsInert c) ∧
    document none (literalText v).toList = .ok v ∧
    (∀ w, Writes none w (literalText v).toList ↔ w = v) ∧
    (∀ c ∈ (stringLiteral s).toList, IsInert c) ∧
    document none (stringLiteral s).toList = .ok (.str s) ∧
    (∀ w, Writes none w (stringLiteral s).toList ↔ w = .str s) ∧
    ∃ body, (stringLiteral s).toList = '"' :: (body ++ ['"']) ∧ quoteFree body = true := by
  have value : Writes none v (literalText v).toList := by
    rw [literalText, toList_codeText]
    exact writes_json h
  have text := writes_stringLiteral none s
  refine ⟨fun long => literal_long h long log, fun short => literal_isJson h short log,
    isInert_codeText (shown_json v), document_writes value, ?_, isInert_codeText (shown_jsonString s),
    document_writes text, ?_, ?_⟩
  · exact fun w => ⟨fun written => written.unique value, fun same => same ▸ value⟩
  · exact fun w => ⟨fun written => written.unique text, fun same => same ▸ text⟩
  · exact ⟨_, toList_stringLiteral s, quoteFree_spellsAll (spellsAll_spelling s)⟩

/-- A whole number with so many digits has no literal, though it has a form in JSON. -/
theorem longNumber_fails : IsJson (.int longNumber) ∧ literal (.int longNumber) [] = (.error .longNumber, []) := by
  have json : IsJson (.int longNumber) := trivial
  refine ⟨json, literal_long json ?_ []⟩
  simp [obstacles, isLongNumber_longNumber]

/-- A nested value with a negative number, a decimal, markup and a line separator in it. -/
def sample : Value :=
  .dict [("b", .list [.int (-3), .float (.finite false 6755399441055744 (-52)), .null]),
    ("a", .dict [("</script>", .str "\u2028&\"\\")])]

theorem sample_isJson : IsJson sample := by
  have text : ((Binary64.finite false 6755399441055744 (-52)).text jsonNumbers).toList =
      ['1', '.', '5'] := by
    decide +kernel
  have nearest : Binary64.ofDecimal false 15 (-1) = .finite false 6755399441055744 (-52) := by
    decide +kernel
  have decimal : scalar none ['1', '.', '5'] =
      .ok (.float (Binary64.ofDecimal false 15 (-1)), []) := rfl
  rw [nearest] at decimal
  simp [sample, IsJson, AllJson, AllEntriesJson, text, decimal]

theorem sample_literals :
    IsJson sample ∧ literal sample [] = (.ok (literalText sample), []) ∧
      document none (literalText sample).toList = .ok sample ∧
      document none (stringLiteral "\u2028</script>").toList = .ok (.str "\u2028</script>") := by
  obtain ⟨-, written, -, value, -, -, text, -⟩ :=
    literals_inert_and_exact sample sample_isJson "\u2028</script>" []
  have short : isLongNumber (-3) = false := isLongNumber_of_lt (k := 1) (by decide) (by decide)
  have plain : Obstacle.long ∉ sample.obstacles := by
    simp [sample, obstacles, obstaclesOfItems, obstaclesOfEntries, short, Binary64.isFinite]
  exact ⟨sample_isJson, written plain, value, text⟩

end Pagesmith.Script
