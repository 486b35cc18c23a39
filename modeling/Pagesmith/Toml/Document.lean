import Pagesmith.Toml.Moment
import Pagesmith.Toml.Namespace
import Pagesmith.Toml.Text
import Pagesmith.Value.Reader

/-!
TOML documents, and the values in them: texts, truth values, moments, whole and binary numbers, arrays, and tables on
one line. A document is statements on lines of their own, each a pair under the last heading, or a heading that opens
a table or a new table in a list.
-/

namespace Pagesmith.Toml

/-- Digits between which single underscores may stand, without these, and the rest. -/
def digits (isDigit : Char → Bool) : List Char → List Char × List Char
  | [] => ([], [])
  | c :: r =>
    if !isDigit c then ([], c :: r)
    else match r with
      | '_' :: d :: r' =>
        if isDigit d then let (ds, rest) := digits isDigit (d :: r'); (c :: ds, rest)
        else ([c], r)
      | r => let (ds, rest) := digits isDigit r; (c :: ds, rest)

def isDigitOf (base : Nat) (c : Char) : Bool :=
  match Text.hexValue? c with
  | some n => n < base
  | none => false

/-- The number that digits write in a base. -/
def ofDigits (base : Nat) (ds : List Char) : Nat :=
  ds.foldl (fun n d => n * base + (Text.hexValue? d).getD 0) 0

/-- A number in another base than ten, with a mark in front. -/
def marked? (cs : List Char) : Option (Value × List Char) :=
  let inBase (base : Nat) (r : List Char) : Option (Value × List Char) :=
    match digits (isDigitOf base) r with
    | ([], _) => none
    | (ds, rest) => some (.int (ofDigits base ds), rest)
  match cs with
  | '0' :: 'x' :: r => inBase 16 r
  | '0' :: 'o' :: r => inBase 8 r
  | '0' :: 'b' :: r => inBase 2 r
  | _ => none

/-- The sign of a number and the rest. -/
def sign : List Char → Bool × List Char
  | '-' :: r => (true, r)
  | '+' :: r => (false, r)
  | r => (false, r)

/-- The digits behind a point. -/
def fraction : List Char → List Char × List Char
  | '.' :: r => match digits Char.isDigit r with
    | ([], _) => ([], '.' :: r)
    | found => found
  | cs => ([], cs)

/-- The exponent of ten, if there is one. -/
def exponent (cs : List Char) : Option Int × List Char :=
  match cs with
  | e :: r =>
    if e == 'e' || e == 'E' then
      let (negative, r) := sign r
      match digits Char.isDigit r with
      | ([], _) => (none, cs)
      | (ds, rest) =>
        let n : Int := ofDigits 10 ds
        (some (if negative then -n else n), rest)
    else (none, cs)
  | [] => (none, cs)

/-- The whole digits of a decimal number, which has no zero in front of others. -/
def wholeDigits (cs : List Char) : List Char × List Char :=
  match cs with
  | '0' :: r => (['0'], r)
  | cs => digits Char.isDigit cs

/-- A decimal number; a fraction or an exponent makes it a binary one. -/
def decimal? (cs : List Char) : Option (Except Stop (Value × List Char)) :=
  let (negative, r) := sign cs
  match wholeDigits r with
  | ([], _) => none
  | (whole, rest) =>
    let (frac, rest) := fraction rest
    let (exp, rest) := exponent rest
    some (
      if frac.isEmpty && exp.isNone then
        if Value.digitLimit < whole.length then .error (.tooManyDigits whole.length)
        else
          let n : Int := ofDigits 10 whole
          .ok (.int (if negative then -n else n), rest)
      else
        .ok (.float (Binary64.ofDecimal negative (ofDigits 10 (whole ++ frac))
          (exp.getD 0 - frac.length)), rest))

/-- A number that is no finite one, by name. -/
def named? (cs : List Char) : Option (Value × List Char) :=
  let (negative, r) := sign cs
  match r with
  | 'i' :: 'n' :: 'f' :: rest => some (.float (.infinite negative), rest)
  | 'n' :: 'a' :: 'n' :: rest => some (.float .nan, rest)
  | _ => none

/-- A value that starts with no quote and no bracket. -/
def scalar (cs : List Char) : Except Stop (Value × List Char) :=
  match cs with
  | 't' :: 'r' :: 'u' :: 'e' :: r => .ok (.bool true, r)
  | 'f' :: 'a' :: 'l' :: 's' :: 'e' :: r => .ok (.bool false, r)
  | cs =>
    match Moment.ofStart? cs with
    | some found => found.map fun f => (f.1.value, f.2)
    | none => match marked? cs with
      | some found => .ok found
      | none => match decimal? cs with
        | some found => found
        | none => match named? cs with
          | some found => .ok found
          | none => .error (.at "Invalid value" cs.length)

/-- Drop blanks, line ends and comments between the items of an array. -/
def skipLines (isInComment : Bool) : List Char → Except Stop (List Char)
  | [] => .ok []
  | c :: r =>
    if isInComment then
      if c == '\n' then skipLines false r
      else if isControl c then
        .error (.at ("Found invalid character " ++ shownChar c) (r.length + 1))
      else skipLines true r
    else if isSpaceOrEnd c then skipLines false r
    else if c == '#' then skipLines true r
    else .ok (c :: r)

def textValue (found : Except Stop (List Char × List Char)) : Except Stop (Value × List Char) :=
  found.map fun f => (.str (String.ofList f.1), f.2)

/-- The room that all arrays and tables one inside the other can take together. -/
def room : Nat := 986

def arrayRoom : Nat := 2

/-- The room that a table on one line takes. -/
def tableRoom : Nat := 3

mutual

/-- A value, for whose arrays and tables so much room is left. -/
def value : (fuel room : Nat) → List Char → Except Stop (Value × List Char)
  | 0, _, cs => .error (.at "Invalid value" cs.length)
  | fuel + 1, room, cs =>
    match cs with
    | '"' :: '"' :: '"' :: r => textValue (basicLines r)
    | '"' :: r => textValue (basicLine r)
    | '\'' :: '\'' :: '\'' :: r => textValue (literalLines r)
    | '\'' :: r => textValue (literalLine r)
    | '[' :: r =>
      if room < arrayRoom then .error .tooDeep
      else do
        match ← skipLines false r with
        | ']' :: rest => pure (.list [], rest)
        | r => do
          let (xs, rest) ← items fuel (room - arrayRoom) r
          pure (.list xs, rest)
    | '\x7b' :: r =>
      if room < tableRoom then .error .tooDeep
      else match skip r with
        | '\x7d' :: rest => .ok (.dict [], rest)
        | r => do
          let (d, rest) ← entries fuel (room - tableRoom) Names.empty r
          pure (.dict d, rest)
    | cs => scalar cs

/-- The items of an array, up to its closing bracket. -/
def items : (fuel room : Nat) → List Char → Except Stop (List Value × List Char)
  | 0, _, cs => .error (.at "Invalid value" cs.length)
  | fuel + 1, room, cs => do
    let (x, rest) ← value fuel room cs
    match ← skipLines false rest with
    | ']' :: rest => pure ([x], rest)
    | ',' :: r =>
      match ← skipLines false r with
      | ']' :: rest => pure ([x], rest)
      | r => do
        let (xs, rest) ← items fuel room r
        pure (x :: xs, rest)
    | rest => .error (.at "Unclosed array" rest.length)

/-- A key, an equals sign and a value. -/
def pair : (fuel room : Nat) → List Char → Except Stop ((List String × Value) × List Char)
  | 0, _, cs => .error (.at "Invalid value" cs.length)
  | fuel + 1, room, cs => do
    let (k, rest) ← key cs
    match rest with
    | '=' :: r => do
      let (v, rest) ← value fuel room (skip r)
      pure ((k, v), rest)
    | rest => .error (.at "Expected '=' after a key in a key/value pair" rest.length)

/-- The entries of a table on one line, up to its closing brace, after those already found. -/
def entries : (fuel room : Nat) → Names → List Char →
    Except Stop (List (String × Value) × List Char)
  | 0, _, _, cs => .error (.at "Invalid value" cs.length)
  | fuel + 1, room, names, cs => do
    let ((k, v), rest) ← pair fuel room cs
    match names.addInline k v with
    | .error what => .error (.at what rest.length)
    | .ok names =>
      match skip rest with
      | '\x7d' :: rest => pure (names.table, rest)
      | ',' :: r => entries fuel room names (skip r)
      | rest => .error (.at "Unclosed inline table" rest.length)

end

/-- The names and the heading in force after a statement. -/
abbrev State := Names × List String

/-- A change of names, reported at the place where the rest starts. -/
def at_ (rest : List Char) (names : Except String Names) : Except Stop Names :=
  match names with
  | .ok n => .ok n
  | .error what => .error (.at what rest.length)

/-- A heading behind its opening brackets. -/
def heading (change : List String → Except String Names) (closing : List Char) (what : String)
    (cs : List Char) : Except Stop (State × List Char) := do
  let (k, rest) ← key (skip cs)
  let names ← at_ rest (change k)
  if closing.isPrefixOf rest then pure ((names, k), rest.drop closing.length)
  else .error (.at what rest.length)

/-- A statement, or nothing in front of a comment. -/
def statement (fuel : Nat) (s : State) (cs : List Char) : Except Stop (State × List Char) :=
  match cs with
  | '[' :: '[' :: r =>
    heading s.1.settle.openItem [']', ']'] "Expected ']]' at the end of an array declaration" r
  | '[' :: r =>
    heading s.1.settle.openTable [']'] "Expected ']' at the end of a table declaration" r
  | '#' :: _ => .ok (s, cs)
  | c :: _ =>
    if isBareChar c || c == '"' || c == '\'' then do
      let ((k, v), rest) ← pair fuel room cs
      let names ← at_ rest (s.1.add s.2 k v)
      pure ((names, s.2), rest)
    else .error (.at "Invalid statement" cs.length)
  | [] => .ok (s, [])

def statements : (fuel : Nat) → State → List Char → Except Stop Names
  | 0, s, _ => .ok s.1
  | fuel + 1, s, cs =>
    match skip cs with
    | [] => .ok s.1
    | '\n' :: r => statements fuel s r
    | cs => do
      let (s, rest) ← statement (fuel + 1) s cs
      match ← skipComment (skip rest) with
      | [] => pure s.1
      | '\n' :: r => statements fuel s r
      | rest =>
        .error (.at "Expected newline or end of document after a statement" rest.length)

/-- Line ends in one form. -/
def unified : List Char → List Char
  | [] => []
  | '\r' :: '\n' :: r => '\n' :: unified r
  | c :: r => c :: unified r

/-- The table that a document writes, or why it writes none. -/
def ofToml? (s : String) : Except Fault Value :=
  let cs := unified s.toList
  match statements (2 * cs.length + 2) (Names.empty, []) cs with
  | .ok names => .ok (.dict names.table)
  | .error stop => .error (stop.fault cs)

end Pagesmith.Toml
