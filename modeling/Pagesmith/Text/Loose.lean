import Pagesmith.Text.Quoted
import Pagesmith.Text.Utf8

/-!
Loose texts. A character beyond the basic plane can be written as two halves; in a loose text a half may stand without
its other half. Such a text can be shown, and it can be joined where two halves meet, but it has no octets.
-/

namespace Pagesmith.Text

/-- A character, or half of one. The first halves are the lower ones. -/
inductive Letter where
  | char (c : Char)
  | half (n : Fin 0x800)
deriving DecidableEq

namespace Letter

def isHalf : Letter → Bool
  | char _ => false
  | half _ => true

/-- The number of a letter. -/
def code : Letter → Nat
  | char c => c.toNat
  | half n => 0xd800 + n.val

/-- The letter with a number of at most four hexadecimal digits. -/
def ofCode (n : Nat) : Letter :=
  if h : 0xd800 ≤ n ∧ n < 0xe000 then half ⟨n - 0xd800, by omega⟩ else char (Char.ofNat n)

@[simp] theorem ofCode_toNat (c : Char) : ofCode c.toNat = char c := by
  have valid : c.toNat < 0xd800 ∨ 0xdfff < c.toNat ∧ c.toNat < 0x110000 := c.valid
  rw [ofCode, dif_neg (by omega), Char.ofNat_toNat]

@[simp] theorem ofCode_half (n : Fin 0x800) : ofCode (0xd800 + n.val) = half n := by
  rw [ofCode, dif_pos (by omega)]
  simp

/-- The letter as a character; a half becomes the sign for what cannot be shown. -/
def toChar : Letter → Char
  | char c => c
  | half _ => Char.ofNat 0xfffd

/-- The two halves are those of one character. -/
def meets (first second : Fin 0x800) : Bool := first.val < 0x400 && 0x400 ≤ second.val

/-- The character that two halves make. -/
def ofHalves (first second : Fin 0x800) : Char :=
  Char.ofNat (0x10000 + first.val * 0x400 + (second.val - 0x400))

def quoted (quote : Char) : Letter → List Char
  | char c => quotedChar quote c
  | half n => numericEscape (0xd800 + n.val)

theorem char_injective : Function.Injective char := fun _ _ same => (char.inj same)

end Letter

/-- A text in which halves of characters may stand alone. -/
abbrev Loose := List Letter

namespace Loose

def ofString (s : String) : Loose := s.toList.map .char

instance : Coe String Loose := ⟨ofString⟩

/-- The text with a sign for every half. -/
def text (t : Loose) : String := String.ofList (t.map Letter.toChar)

/-- Some half stands in the text. -/
def isBroken (t : Loose) : Bool := t.any Letter.isHalf

/-- The text in quotes, with an escape for every half. -/
def quoted (t : Loose) : String :=
  let quote := quoteFor (t.map Letter.toChar)
  String.ofList (quote :: t.flatMap (Letter.quoted quote) ++ [quote])

/-- A text behind one more letter, which makes one character with a half that it meets. -/
def attach : Letter → Loose → Loose
  | .half n, .half m :: r =>
    if Letter.meets n m then .char (Letter.ofHalves n m) :: r else .half n :: .half m :: r
  | x, r => x :: r

/-- Letters as a text, in which halves that meet are one character. -/
def joined (letters : List Letter) : Loose := letters.foldr attach []

/-- No two halves of one character stand side by side. -/
def isJoined : Loose → Bool
  | .half n :: .half m :: r => !Letter.meets n m && isJoined (.half m :: r)
  | _ :: r => isJoined r
  | [] => true

theorem isJoined_tail {x : Letter} {r : Loose} (h : isJoined (x :: r) = true) : isJoined r = true := by
  unfold isJoined at h
  split at h
  · next same => exact (List.cons.inj same).2 ▸ (Bool.and_eq_true_iff.1 h).2
  · next same => exact (List.cons.inj same).2 ▸ h
  · contradiction

theorem isJoined_attach (x : Letter) {r : Loose} (h : isJoined r = true) : isJoined (attach x r) = true := by
  unfold attach
  split
  · split
    · simpa [isJoined] using isJoined_tail h
    · next apart => simpa [isJoined, apart] using h
  · next alone =>
    unfold isJoined
    split
    · next same => exact (alone _ _ _ (List.cons.inj same).1 (List.cons.inj same).2).elim
    · next same => exact (List.cons.inj same).2 ▸ h
    · contradiction

theorem isJoined_joined (letters : List Letter) : isJoined (joined letters) = true := by
  induction letters with
  | nil => rfl
  | cons x r ih => exact isJoined_attach x ih

theorem attach_of_isJoined {x : Letter} {r : Loose} (h : isJoined (x :: r) = true) : attach x r = x :: r := by
  unfold attach
  split
  · next n m r =>
    rw [if_neg]
    simp only [isJoined, Bool.and_eq_true, Bool.not_eq_eq_eq_not, Bool.not_true] at h
    simp [h.1]
  · rfl

/-- A text in which no halves meet is as it is. -/
theorem joined_of_isJoined {t : Loose} (h : isJoined t = true) : joined t = t := by
  induction t with
  | nil => rfl
  | cons x r ih =>
    change attach x (joined r) = x :: r
    rw [ih (isJoined_tail h), attach_of_isJoined h]

theorem isJoined_ofString (s : String) : isJoined (ofString s) = true := by
  unfold ofString
  induction s.toList with
  | nil => rfl
  | cons c r ih => exact ih

@[simp] theorem isBroken_ofString (s : String) : isBroken (ofString s) = false := by
  simp [isBroken, ofString, Letter.isHalf]

@[simp] theorem text_ofString (s : String) : text (ofString s) = s := by
  simp [text, ofString, Letter.toChar, Function.comp_def]

end Loose

/-- Halves in a row that have no octets: their place, their number and the first of them. -/
structure EncodeFault where
  position : Nat
  length : Nat
  half : Fin 0x800
deriving DecidableEq

def EncodeFault.message (f : EncodeFault) : String :=
  let place :=
    if f.length == 1 then
      "character '" ++ String.ofList (numericEscape (0xd800 + f.half.val)) ++ "' in position " ++
        toString f.position
    else
      "characters in position " ++ toString f.position ++ "-" ++ toString (f.position + f.length - 1)
  "'utf-8' codec can't encode " ++ place ++ ": surrogates not allowed"

namespace Loose

/-- The octets of a text that starts at `position`, with those that `octet?` has for halves. -/
def encodeFrom (octet? : Fin 0x800 → Option UInt8) : (position : Nat) → Loose → Except EncodeFault (List UInt8)
  | _, [] => .ok []
  | position, .char c :: r => (encodeFrom octet? (position + 1) r).map (String.utf8EncodeChar c ++ ·)
  | position, .half n :: r => match octet? n with
    | some b => (encodeFrom octet? (position + 1) r).map (b :: ·)
    | none => .error ⟨position, (r.takeWhile Letter.isHalf).length + 1, n⟩

/-- The octets of a text. -/
def octets? (t : Loose) : Except EncodeFault (List UInt8) := encodeFrom (fun _ => none) 0 t

/-- The octet that a half is in the name of a file. Halves that stand for octets beyond ASCII are those octets. -/
def nameOctet? (n : Fin 0x800) : Option UInt8 :=
  if 0x480 ≤ n.val ∧ n.val < 0x500 then some (UInt8.ofNat (n.val - 0x400)) else none

/-- The octets of a text in the name of a file. -/
def nameOctets? (t : Loose) : Except EncodeFault (List UInt8) := encodeFrom nameOctet? 0 t

/-- Where a text has octets. -/
theorem encodeFrom_ok_iff {octet? : Fin 0x800 → Option UInt8} {position : Nat} {t : Loose} :
    (∃ bs, encodeFrom octet? position t = .ok bs) ↔ ∀ n, .half n ∈ t → (octet? n).isSome = true := by
  induction t generalizing position with
  | nil => simp [encodeFrom]
  | cons x r ih =>
    have mapped (f : List UInt8 → List UInt8) : (∃ bs, (encodeFrom octet? (position + 1) r).map f = .ok bs) ↔
        ∀ n, .half n ∈ r → (octet? n).isSome = true := by
      rw [← @ih (position + 1)]
      cases encodeFrom octet? (position + 1) r <;> simp [Except.map]
    cases x with
    | char c =>
      rw [encodeFrom, mapped]
      simp
    | half n =>
      rw [encodeFrom]
      cases here : octet? n with
      | none => simp [here]
      | some b =>
        dsimp only
        rw [mapped]
        simp [here]

theorem isBroken_eq_false {t : Loose} : t.isBroken = false ↔ ∀ n, .half n ∉ t := by
  rw [isBroken, List.any_eq_false]
  constructor
  · exact fun whole n mem => whole _ mem rfl
  · intro whole x mem
    cases x with
    | char c => exact Bool.false_ne_true
    | half n => exact absurd mem (whole n)

theorem encodeFrom_whole {octet? : Fin 0x800 → Option UInt8} {position : Nat} {t : Loose} (whole : t.isBroken = false) :
    encodeFrom octet? position t = .ok (Text.octets t.text) := by
  rw [text, Text.octets, String.toList_ofList]
  rw [isBroken_eq_false] at whole
  induction t generalizing position with
  | nil => rfl
  | cons x r ih =>
    cases x with
    | char c =>
      rw [encodeFrom, ih fun n mem => whole n (List.mem_cons_of_mem _ mem)]
      rfl
    | half n => exact absurd List.mem_cons_self (whole n)

/-- A text without halves has the octets of its characters, and no other text has any. -/
theorem octets?_eq_ok {t : Loose} {bs : List UInt8} :
    octets? t = .ok bs ↔ t.isBroken = false ∧ bs = Text.octets t.text := by
  constructor
  · intro encoded
    have whole : t.isBroken = false :=
      isBroken_eq_false.2 fun n mem => by simpa using encodeFrom_ok_iff.1 ⟨bs, encoded⟩ n mem
    rw [octets?, encodeFrom_whole whole] at encoded
    exact ⟨whole, (Except.ok.inj encoded).symm⟩
  · rintro ⟨whole, rfl⟩
    exact encodeFrom_whole whole

theorem octets?_ofString (s : String) : octets? (ofString s) = .ok (Text.octets s) :=
  octets?_eq_ok.2 ⟨isBroken_ofString s, by rw [text_ofString]⟩

theorem ofString_text {t : Loose} (whole : t.isBroken = false) : ofString t.text = t := by
  rw [ofString, text, String.toList_ofList, List.map_map]
  refine (List.map_congr_left fun x mem => ?_).trans (List.map_id t)
  cases x with
  | char c => rfl
  | half n => exact absurd mem (isBroken_eq_false.1 whole n)

end Loose

/-- A text with at least one half that has lost its other half. -/
structure Torn where
  letters : Loose
  isTorn : letters.isBroken = true
  isJoined : letters.isJoined = true

end Pagesmith.Text
