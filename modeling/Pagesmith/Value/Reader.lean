import Pagesmith.Fault
import Pagesmith.Table
import Pagesmith.Text.Digit
import Pagesmith.Value.Basic

/-!
Reading JSON text. Objects keep the order of their keys, a repeated key its first place and its
last value; whole numbers and decimals are told apart by their spelling. A text that is no JSON
is refused with the place of the first character that cannot stand there. A key has signs for halves of characters.
-/

namespace Pagesmith.Value.Reader

/-- Why reading stops, with the number of characters left from the place of the fault on. -/
inductive Stop where
  | at (what : String) (left : Nat)
  | digits (count : Nat)

/-- White space between the parts of a document. -/
def isSpace (c : Char) : Bool :=
  c == ' ' || c == '\t' || c == '\n' || c == '\r'

/-- Drop white space. -/
def skip (cs : List Char) : List Char := cs.dropWhile isSpace

/-- The number of four hexadecimal digits. -/
def hexNumber (a b c d : Char) : Option Nat := do
  let a ← Text.hexValue? a
  let b ← Text.hexValue? b
  let c ← Text.hexValue? c
  let d ← Text.hexValue? d
  pure (((a * 16 + b) * 16 + c) * 16 + d)

/-- The character behind a backslash, for the escapes of one letter. -/
def shortEscape? (c : Char) : Option Char :=
  if c == '"' || c == '\\' || c == '/' then some c
  else if c == 'b' then some (Char.ofNat 8)
  else if c == 'f' then some (Char.ofNat 12)
  else if c == 'n' then some '\n'
  else if c == 'r' then some '\r'
  else if c == 't' then some '\t'
  else none

/-- A string that goes on behind a letter. -/
def behind (x : Text.Letter) : Except (Option Stop) (List Text.Letter × List Char) →
    Except (Option Stop) (List Text.Letter × List Char)
  | .ok (s, rest) => .ok (x :: s, rest)
  | .error stop => .error stop

/-- An escape by number that is none; `left` characters are left from its letter on. -/
def badNumber (left : Nat) : Except (Option Stop) (List Text.Letter × List Char) :=
  .error (some (.at "Invalid \\uXXXX escape" left))

/-- The rest of a string, behind its opening quote or a letter. A string that is not closed
stops without a place of its own. An escape by number must not be the last thing of the text. -/
def readString : List Char → Except (Option Stop) (List Text.Letter × List Char)
  | [] => .error none
  | '"' :: r => .ok ([], r)
  | ['\\'] => .error none
  | '\\' :: 'u' :: a :: b :: c :: d :: rest =>
    match if rest.isEmpty then none else hexNumber a b c d with
    | none => badNumber (rest.length + 5)
    | some n => behind (.ofCode n) (readString rest)
  | '\\' :: 'u' :: r => badNumber (r.length + 1)
  | '\\' :: c :: r =>
    match shortEscape? c with
    | none => .error (some (.at "Invalid \\escape" (r.length + 2)))
    | some c => behind (.char c) (readString r)
  | c :: r =>
    if c.toNat < 0x20 then .error (some (.at "Invalid control character at" (r.length + 1)))
    else behind (.char c) (readString r)

/-- The letters of a string whose opening quote has been read. -/
def string (cs : List Char) : Except Stop (List Text.Letter × List Char) :=
  match readString cs with
  | .ok (s, rest) => .ok (s, rest)
  | .error (some stop) => .error stop
  | .error none => .error (.at "Unterminated string starting at" (cs.length + 1))

/-- The number that decimal digits write. -/
def ofDigits (ds : List Char) : Nat :=
  ds.foldl (fun n d => n * 10 + (d.toNat - '0'.toNat)) 0

/-- A decimal fraction: the digits after a point that has one behind it. -/
def fraction : List Char → List Char × List Char
  | '.' :: c :: r =>
    if c.isDigit then ((c :: r).takeWhile Char.isDigit, (c :: r).dropWhile Char.isDigit)
    else ([], '.' :: c :: r)
  | cs => ([], cs)

/-- The sign of an exponent, if it has one. -/
def exponentSign : List Char → Bool × List Char
  | '-' :: r => (true, r)
  | '+' :: r => (false, r)
  | r => (false, r)

/-- A decimal exponent, if digits follow its mark and sign. -/
def exponent (cs : List Char) : Option Int × List Char :=
  match cs with
  | e :: r =>
    if e == 'e' || e == 'E' then
      let (negative, ds) := exponentSign r
      match ds.takeWhile Char.isDigit with
      | [] => (none, cs)
      | found =>
        let n : Int := ofDigits found
        (some (if negative then -n else n), ds.dropWhile Char.isDigit)
    else (none, cs)
  | [] => (none, cs)

/-- A whole number has more digits than a reader with a limit takes. -/
def isLong (limit : Option Nat) (whole : List Char) : Bool := limit.any (· < whole.length)

/-- A number that starts with these whole digits; a fraction or an exponent makes it a decimal. -/
def number (limit : Option Nat) (negative : Bool) (whole rest : List Char) :
    Except Stop (Value × List Char) :=
  let (frac, rest) := fraction rest
  let (exp, rest) := exponent rest
  if frac.isEmpty && exp.isNone then
    if isLong limit whole then .error (.digits whole.length)
    else
      let n : Int := ofDigits whole
      .ok (.int (if negative then -n else n), rest)
  else
    .ok (.float (Binary64.ofDecimal negative (ofDigits (whole ++ frac))
      (exp.getD 0 - frac.length)), rest)

/-- A number behind its sign; `left` characters are left from the sign on. -/
def unsigned (limit : Option Nat) (negative : Bool) (left : Nat) (ds : List Char) :
    Except Stop (Value × List Char) :=
  match ds with
  | '0' :: r => number limit negative ['0'] r
  | d :: _ =>
    if d.isDigit then
      number limit negative (ds.takeWhile Char.isDigit) (ds.dropWhile Char.isDigit)
    else .error (.at "Expecting value" left)
  | [] => .error (.at "Expecting value" left)

/-- A number with or without a sign. -/
def numeral (limit : Option Nat) : List Char → Except Stop (Value × List Char)
  | '-' :: r => unsigned limit true (r.length + 1) r
  | cs => unsigned limit false cs.length cs

/-- A number or one of the words for a value that is no text, list or object. -/
def scalar (limit : Option Nat) (cs : List Char) : Except Stop (Value × List Char) :=
  match cs with
  | 'n' :: 'u' :: 'l' :: 'l' :: r => .ok (.null, r)
  | 't' :: 'r' :: 'u' :: 'e' :: r => .ok (.bool true, r)
  | 'f' :: 'a' :: 'l' :: 's' :: 'e' :: r => .ok (.bool false, r)
  | 'N' :: 'a' :: 'N' :: r => .ok (.float .nan, r)
  | 'I' :: 'n' :: 'f' :: 'i' :: 'n' :: 'i' :: 't' :: 'y' :: r => .ok (.float (.infinite false), r)
  | '-' :: 'I' :: 'n' :: 'f' :: 'i' :: 'n' :: 'i' :: 't' :: 'y' :: r =>
    .ok (.float (.infinite true), r)
  | cs => numeral limit cs

/-- Letters as a textual value. Two halves of one character are that character. -/
def ofLetters (letters : List Text.Letter) : Value :=
  let t := Text.Loose.joined letters
  if h : t.isBroken = true then .torn ⟨t, h, Text.Loose.isJoined_joined letters⟩ else .str t.text

/-- Letters as a key. -/
def keyOfLetters (letters : List Text.Letter) : String := (Text.Loose.joined letters).text

mutual

def readValue (limit : Option Nat) : (fuel : Nat) → List Char → Except Stop (Value × List Char)
  | 0, cs => .error (.at "Expecting value" cs.length)
  | fuel + 1, cs =>
    match cs with
    | '"' :: r => do
      let (s, rest) ← string r
      pure (ofLetters s, rest)
    | '[' :: r =>
      match skip r with
      | ']' :: rest => .ok (.list [], rest)
      | r => do
        let (xs, rest) ← readItems limit fuel r
        pure (.list xs, rest)
    | '\x7b' :: r =>
      match skip r with
      | '\x7d' :: rest => .ok (.dict [], rest)
      | r => do
        let (es, rest) ← readEntries limit fuel [] r
        pure (.dict es, rest)
    | cs => scalar limit cs

/-- The items of a list, up to its closing bracket. -/
def readItems (limit : Option Nat) :
    (fuel : Nat) → List Char → Except Stop (List Value × List Char)
  | 0, cs => .error (.at "Expecting value" cs.length)
  | fuel + 1, cs => do
    let (x, rest) ← readValue limit fuel cs
    match skip rest with
    | ']' :: rest => pure ([x], rest)
    | ',' :: rest => do
      let (xs, rest) ← readItems limit fuel (skip rest)
      pure (x :: xs, rest)
    | rest => .error (.at "Expecting ',' delimiter" rest.length)

/-- The entries of an object, up to its closing brace, after those already found. -/
def readEntries (limit : Option Nat) : (fuel : Nat) → (found : List (String × Value)) →
    List Char → Except Stop (List (String × Value) × List Char)
  | 0, _, cs => .error (.at "Expecting value" cs.length)
  | fuel + 1, found, cs =>
    match cs with
    | '"' :: r => do
      let (key, rest) ← string r
      match skip rest with
      | ':' :: rest => do
        let (v, rest) ← readValue limit fuel (skip rest)
        let found := Table.insert (keyOfLetters key) v found
        match skip rest with
        | '\x7d' :: rest => pure (found, rest)
        | ',' :: rest => readEntries limit fuel found (skip rest)
        | rest => .error (.at "Expecting ',' delimiter" rest.length)
      | rest => .error (.at "Expecting ':' delimiter" rest.length)
    | cs => .error (.at "Expecting property name enclosed in double quotes" cs.length)

end

/-- A whole document; `Extra data` is whatever follows its value. Without a limit whole numbers may
have any number of digits. -/
def document (limit : Option Nat) (cs : List Char) : Except Stop Value :=
  match cs with
  | c :: r =>
    if c.toNat == 0xfeff then
      .error (.at "Unexpected UTF-8 BOM (decode using utf-8-sig)" (r.length + 1))
    else do
      let (v, rest) ← readValue limit (2 * cs.length + 2) (skip cs)
      match skip rest with
      | [] => pure v
      | rest => .error (.at "Extra data" rest.length)
  | [] => .error (.at "Expecting value" 0)

/-- The place of a fault, from the characters before it. -/
def place (what : String) (before : List Char) : SyntaxFault :=
  .at what (before.count '\n' + 1) ((before.reverse.takeWhile (· != '\n')).length + 1) before.length

end Reader

/-- The value a JSON text writes. -/
def ofJson? (s : String) : Except SyntaxFault Value :=
  match Reader.document (some digitLimit) s.toList with
  | .ok v => .ok v
  | .error (.digits n) => .error (.tooManyDigits n)
  | .error (.at what left) =>
    .error (Reader.place what (s.toList.take (s.toList.length - left)))

end Pagesmith.Value
