import Pagesmith.Fault
import Pagesmith.Text.Blank
import Pagesmith.Text.Digit
import Pagesmith.Value.Text

/-!
Whole numbers from dynamic values. A number loses its fraction; a text is read as a sign and decimal digits of any
script, with single underscores between digits and blanks around.
-/

namespace Pagesmith.Value

/-- A blank that may stand around a number. -/
def isNumberSpace (c : Char) : Bool :=
  Text.isBlank c && !(0x1c ≤ c.toNat && c.toNat ≤ 0x1f)

/-- The values of digits between which single underscores may stand, and what follows them. -/
def digitRun : List Char → List Nat × List Char
  | [] => ([], [])
  | c :: r => match Text.digitValue? c with
    | none => ([], c :: r)
    | some d => match r with
      | '_' :: c' :: r' => match Text.digitValue? c' with
        | some _ => let (ds, rest) := digitRun (c' :: r'); (d :: ds, rest)
        | none => ([d], r)
      | r => let (ds, rest) := digitRun r; (d :: ds, rest)

/-- The sign of a number, negative or not, and what follows it. -/
def signOf : List Char → Bool × List Char
  | '-' :: r => (true, r)
  | '+' :: r => (false, r)
  | r => (false, r)

/-- The most characters that a fault gives of a text that is no number. -/
def excerptLimit : Nat := 200

/-- The start of a text that is already shown, as a fault gives it. A longer text is cut off, its
closing quote with it. -/
def excerpt (shown : String) : String := String.ofList (shown.toList.take excerptLimit)

/-- The whole number that a text spells; `shown` is the text as a fault gives it. -/
def wholeOfText (shown : String) (cs : List Char) : Except Fault Int :=
  let (negative, cs) := signOf (cs.dropWhile isNumberSpace)
  match digitRun cs with
  | ([], _) => .error (.notInteger shown)
  | (ds, rest) =>
    if rest.head? == some '_' then .error (.notInteger shown)
    else if digitLimit < ds.length then .error (.integerTooLong ds.length)
    else if rest.all isNumberSpace then
      let n : Nat := ds.foldl (fun n d => n * 10 + d) 0
      .ok (if negative then -n else n)
    else .error (.notInteger shown)

/-- The character of an octet; octets beyond ASCII spell nothing. -/
def asciiChar (b : UInt8) : Char :=
  if b < 0x80 then Char.ofNat b.toNat else '?'

def whole (v : Value) : Except Fault Int :=
  match v with
  | .int n => .ok n
  | .bool b => .ok (if b then 1 else 0)
  | .float .nan => .error .nanInteger
  | .float x => match x.truncate? with
    | some n => .ok n
    | none => .error .infiniteInteger
  | .str s => wholeOfText (excerpt v.shown) s.toList
  | .torn t => wholeOfText (excerpt v.shown) (t.letters.map Text.Letter.toChar)
  | .bytes bs => wholeOfText (excerpt v.shown) (bs.map asciiChar)
  | v => .error (.notNumber v.typeName)

end Pagesmith.Value
