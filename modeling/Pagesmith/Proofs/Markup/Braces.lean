import Pagesmith.Proofs.Script.Literal
import Pagesmith.Proofs.Text.Name

/-!
Code between braces. Whoever reads it takes the strings in it as a whole and counts the braces outside of them, up
to the one that closes the code. The literal of a value leaves no string and no brace open, so it is read to its end.
-/

namespace Pagesmith.Markup
open Script Value Value.Reader

/-- Where the reader of code is, inside so many braces. -/
inductive Place where
  | code (braces : Nat)
  | string (braces : Nat)
  /-- Behind a backslash in a string. -/
  | escape (braces : Nat)
deriving DecidableEq

namespace Place

def next : Place → Char → Place
  | code n, c =>
    if c == '"' then string n
    else if c == '\x7b' then code (n + 1)
    else if c == '\x7d' then code (n - 1)
    else code n
  | string n, c => if c == '"' then code n else if c == '\\' then escape n else string n
  | escape n, _ => string n

/-- The character is the brace that closes the code. -/
def ends (p : Place) (c : Char) : Bool := p == code 0 && c == '\x7d'

end Place

/-- The code up to the brace that closes it, and what stands behind that. -/
def readCode : Place → List Char → Option (List Char × List Char)
  | _, [] => none
  | p, c :: r =>
    if p.ends c then some ([], r) else (readCode (p.next c) r).map fun (inner, rest) => (c :: inner, rest)

/-- The text leads from one place to another, and does not close the code on its way. -/
inductive Leads : Place → List Char → Place → Prop
  | nil {p : Place} : Leads p [] p
  | cons {p q : Place} {c : Char} {r : List Char} (inside : p.ends c = false) (rest : Leads (p.next c) r q) :
      Leads p (c :: r) q

theorem Leads.append {p q o : Place} {cs ds : List Char} (h : Leads p cs q) (h' : Leads q ds o) :
    Leads p (cs ++ ds) o := by
  induction h with
  | nil => exact h'
  | cons inside _ ih => exact .cons inside (ih h')

theorem Leads.one {p q : Place} {c : Char} (inside : p.ends c = false) (step : p.next c = q) : Leads p [c] q :=
  .cons inside (step ▸ .nil)

/-- Code that leads back to where it starts is read up to the brace behind it. -/
theorem Leads.readCode {p : Place} {cs : List Char} (h : Leads p cs (.code 0)) (rest : List Char) :
    readCode p (cs ++ '\x7d' :: rest) = some (cs, rest) := by
  generalize last : Place.code 0 = q at h
  induction h with
  | nil =>
    subst last
    rfl
  | cons inside _ ih =>
    rw [List.cons_append, Markup.readCode, if_neg (by simp [inside]), ih last]
    rfl

theorem readCode_eq {p : Place} {cs inner rest : List Char} (h : readCode p cs = some (inner, rest)) :
    cs = inner ++ '\x7d' :: rest := by
  induction cs generalizing p inner with
  | nil => cases h
  | cons c r ih =>
    rw [readCode] at h
    split at h
    · next closes =>
      obtain ⟨rfl, rfl⟩ := Prod.mk.inj (Option.some.inj h)
      have brace : c = '\x7d' := by
        simp only [Place.ends, Bool.and_eq_true, beq_iff_eq] at closes
        exact closes.2
      rw [brace]
      rfl
    · obtain ⟨found, read, same⟩ := Option.map_eq_some_iff.1 h
      obtain ⟨rfl, rfl⟩ := Prod.mk.inj same
      rw [ih read]
      rfl

/-- The code opens nothing that it does not close, and closes nothing else. -/
def IsClosed (s : String) : Prop := ∀ n, Leads (.code n) s.toList (.code n)

section Closed

theorem isClosed_plain {s : String} (h : ∀ c ∈ s.toList, c ≠ '"' ∧ c ≠ '\x7b' ∧ c ≠ '\x7d') : IsClosed s := by
  intro n
  generalize s.toList = cs at h
  induction cs with
  | nil => exact .nil
  | cons c r ih =>
    obtain ⟨⟨quote, opening, closing⟩, rest⟩ := List.forall_mem_cons.1 h
    have step : (Place.code n).next c = .code n := by simp [Place.next, quote, opening, closing]
    refine .cons (by simp [Place.ends, closing]) ?_
    rw [step]
    exact ih rest

theorem IsClosed.append {s t : String} (h : IsClosed s) (h' : IsClosed t) : IsClosed (s ++ t) := by
  intro n
  rw [String.toList_append]
  exact (h n).append (h' n)

theorem IsClosed.intercalate {sep : String} (between : IsClosed sep) {texts : List String}
    (h : ∀ t ∈ texts, IsClosed t) : IsClosed (String.intercalate sep texts) := by
  induction texts with
  | nil => exact isClosed_plain (by simp)
  | cons t r ih =>
    obtain ⟨first, rest⟩ := List.forall_mem_cons.1 h
    match r with
    | [] => simpa using first
    | t' :: r =>
      rw [String.intercalate_cons_cons]
      exact (first.append between).append (ih rest)

/-- Braces around closed code are closed again. -/
theorem IsClosed.braces {s : String} (h : IsClosed s) : IsClosed ("\x7b" ++ s ++ "\x7d") := by
  intro n
  rw [String.toList_append, String.toList_append]
  have opening : Leads (.code n) ['\x7b'] (.code (n + 1)) := .one (by simp [Place.ends]) rfl
  have closing : Leads (.code (n + 1)) ['\x7d'] (.code n) := .one (by simp [Place.ends]) rfl
  exact (opening.append (h (n + 1))).append closing

theorem isClosed_name {s : String} (h : Text.IsName s) : IsClosed s := by
  refine isClosed_plain fun c mem => ?_
  have letter := h.chars c mem
  refine ⟨?_, ?_, ?_⟩
  all_goals
    rintro rfl
    exact absurd letter (by decide)

end Closed

section Literals

theorem leads_string {cs : List Char} (h : ∀ c ∈ cs, c ≠ '"' ∧ c ≠ '\\') (n : Nat) :
    Leads (.string n) cs (.string n) := by
  induction cs with
  | nil => exact .nil
  | cons c r ih =>
    obtain ⟨⟨quote, backslash⟩, rest⟩ := List.forall_mem_cons.1 h
    have step : (Place.string n).next c = .string n := by simp [Place.next, quote, backslash]
    refine .cons rfl ?_
    rw [step]
    exact ih rest

/-- However a character is spelt in a string, the string goes on. -/
theorem leads_spells {e : List Char} {x : Text.Letter} (h : Spells e x) (n : Nat) :
    Leads (.string n) e (.string n) := by
  cases h with
  | plain _ quote backslash _ => exact leads_string (List.forall_mem_singleton.2 ⟨quote, backslash⟩) n
  | short e _ _ => exact .cons rfl (.one rfl rfl)
  | numeric k _ =>
    have digits : ∀ d ∈ Text.hexDigits 4 k, d ≠ '"' ∧ d ≠ '\\' := by
      intro d mem
      have number := isNumberChar_hexDigits 4 _ d mem
      refine ⟨?_, ?_⟩
      all_goals
        rintro rfl
        exact absurd number (by decide)
    exact .cons rfl (.cons rfl (leads_string digits n))

theorem leads_spellsAll {body : List Char} {s : List Text.Letter} (h : SpellsAll body s) (n : Nat) :
    Leads (.string n) body (.string n) := by
  induction h with
  | nil => exact .nil
  | cons spells _ ih => exact (leads_spells spells n).append ih

theorem isClosed_stringLiteral (s : String) : IsClosed (stringLiteral s) := by
  intro n
  rw [toList_stringLiteral]
  exact .cons (by simp [Place.ends]) ((leads_spellsAll (spellsAll_spelling _) n).append (.one rfl rfl))

theorem isClosed_tornLiteral (t : Text.Torn) : IsClosed (codeText (jsonTorn t)) := by
  intro n
  rw [toList_codeText, isEncoding_codeChar.torn]
  exact .cons (by simp [Place.ends])
    ((leads_spellsAll (.flatMap isEncoding_codeChar.spellsLetter t.letters) n).append (.one rfl rfl))

theorem codeText_append (s t : String) : codeText (s ++ t) = codeText s ++ codeText t := by
  rw [← String.toList_inj, toList_codeText, String.toList_append, List.flatMap_append, String.toList_append,
    toList_codeText, toList_codeText]

theorem codeText_intercalate (texts : List String) :
    codeText (String.intercalate ", " texts) = String.intercalate ", " (texts.map codeText) := by
  induction texts with
  | nil => rfl
  | cons t r ih =>
    match r with
    | [] => simp
    | t' :: r =>
      have separator : codeText ", " = ", " := rfl
      rw [String.intercalate_cons_cons, codeText_append, codeText_append, separator, ih]
      exact String.intercalate_cons_cons.symm

theorem isClosed_numeral {s : String} (h : ∀ c ∈ s.toList, isNumberChar c = true) : IsClosed (codeText s) := by
  have same : codeText s = s := by
    rw [← String.toList_inj, toList_codeText, flatMap_codeChar fun c mem => isInert_number (h c mem)]
  rw [same]
  refine isClosed_plain fun c mem => ?_
  have number := h c mem
  refine ⟨?_, ?_, ?_⟩
  all_goals
    rintro rfl
    exact absurd number (by decide)

theorem isClosed_word {s : String} (h : (s.toList.all isNumberChar) = true) : IsClosed (codeText s) :=
  isClosed_numeral (List.all_eq_true.1 h)

mutual

/-- The literal of a value leaves nothing open. -/
theorem isClosed_literalText (v : Value) : IsClosed (literalText v) := by
  have separator : IsClosed ", " := isClosed_plain (Text.forall_chars (by decide))
  rw [literalText]
  match v with
  | .null | .bytes _ | .function | .node _ | .back _ | .foreign .. =>
    simp only [json]
    exact isClosed_word (by decide)
  | .bool b =>
    cases b with
    | false => exact isClosed_word (by decide)
    | true => exact isClosed_word (by decide)
  | .int n => exact isClosed_numeral (by simpa only [json] using isNumberChar_int n)
  | .float x => exact isClosed_numeral (by simpa only [json] using isNumberChar_text x)
  | .str s => exact isClosed_stringLiteral s
  | .torn t => exact isClosed_tornLiteral t
  | .list xs | .tuple xs =>
    have opening : IsClosed (codeText "[") := isClosed_plain (Text.forall_chars (by decide))
    have closing : IsClosed (codeText "]") := isClosed_plain (Text.forall_chars (by decide))
    simp only [json]
    rw [codeText_append, codeText_append, codeText_intercalate]
    exact (opening.append (.intercalate separator (isClosed_items xs))).append closing
  | .dict es =>
    simp only [json]
    rw [codeText_append, codeText_append, codeText_intercalate]
    exact (IsClosed.intercalate separator (isClosed_entries es)).braces

theorem isClosed_items (xs : List Value) : ∀ t ∈ (jsonItems xs).map codeText, IsClosed t := by
  match xs with
  | [] => simp [jsonItems]
  | x :: r =>
    simp only [jsonItems, List.map_cons, List.forall_mem_cons]
    exact ⟨isClosed_literalText x, isClosed_items r⟩

theorem isClosed_entries (es : List (String × Value)) : ∀ t ∈ (jsonEntries es).map codeText, IsClosed t := by
  match es with
  | [] => simp [jsonEntries]
  | (k, v) :: r =>
    have colon : IsClosed (codeText ": ") := isClosed_plain (Text.forall_chars (by decide))
    simp only [jsonEntries, List.map_cons, List.forall_mem_cons]
    rw [codeText_append, codeText_append]
    exact ⟨((isClosed_stringLiteral k).append colon).append (isClosed_literalText v), isClosed_entries r⟩

end

end Literals

end Pagesmith.Markup
