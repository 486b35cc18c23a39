import Pagesmith.Text.Digit
import Pagesmith.Toml.Stop

/-!
Texts and keys of a TOML document. Basic texts are quoted and have escapes, literal texts stand
between apostrophes; both can go over several lines.
-/

namespace Pagesmith.Toml

/-- The character behind a backslash, for the escapes of one letter. -/
def shortEscape? (c : Char) : Option Char :=
  if c == 'b' then some (Char.ofNat 8)
  else if c == 't' then some '\t'
  else if c == 'n' then some '\n'
  else if c == 'f' then some (Char.ofNat 12)
  else if c == 'r' then some '\r'
  else if c == '"' || c == '\\' then some c
  else none

/-- The number that hexadecimal digits write. -/
def hexNumber? (ds : List Char) : Option Nat :=
  ds.foldl (fun n d => do pure ((← n) * 16 + (← Text.hexValue? d))) (some 0)

/-- A character given by `n` hexadecimal digits. -/
def hexChar (n : Nat) (cs : List Char) : Except Stop (List Char × List Char) :=
  let ds := cs.take n
  match if ds.length == n then hexNumber? ds else none with
  | none => .error (.at "Invalid hex value" cs.length)
  | some code =>
    if code < 0xd800 || (0xdfff < code && code < 0x110000) then
      .ok ([Char.ofNat code], cs.drop n)
    else .error (.at "Escaped character is not a Unicode scalar value" (cs.length - n))

/-- What a backslash stands for, with the rest behind its escape. In a text of several lines it
also takes a line end, with the blanks around it, away. -/
def escape (isLong : Bool) (cs : List Char) : Except Stop (List Char × List Char) :=
  let unknown (rest : List Char) : Except Stop (List Char × List Char) :=
    .error (.at "Unescaped '\\' in a string" rest.length)
  match cs with
  | [] => unknown []
  | c :: r =>
    if isLong && c == '\n' then .ok ([], r.dropWhile isSpaceOrEnd)
    else if isLong && isSpace c then
      match skip r with
      | [] => .ok ([], [])
      | '\n' :: r => .ok ([], r.dropWhile isSpaceOrEnd)
      | r => unknown r
    else if c == 'u' then hexChar 4 r
    else if c == 'U' then hexChar 8 r
    else match shortEscape? c with
      | some e => .ok ([e], r)
      | none => unknown r

/-- The rest of a basic text, up to its closing quote or quotes. -/
def basic (isLong : Bool) : (fuel : Nat) → List Char → Except Stop (List Char × List Char)
  | 0, cs => .error (.at "Unterminated string" cs.length)
  | fuel + 1, cs =>
    match cs with
    | [] => .error (.at "Unterminated string" 0)
    | '\\' :: r => do
      let (found, rest) ← escape isLong r
      let (text, rest) ← basic isLong fuel rest
      pure (found ++ text, rest)
    | c :: r =>
      if c == '"' && !isLong then .ok ([], r)
      else if c == '"' && ['"', '"'].isPrefixOf r then .ok ([], r.drop 2)
      else if if isLong then isLineControl c else isControl c then
        .error (.at ("Illegal character " ++ shownChar c) (r.length + 1))
      else do
        let (text, rest) ← basic isLong fuel r
        pure (c :: text, rest)

/-- A basic text whose opening quote has been read. -/
def basicLine (cs : List Char) : Except Stop (List Char × List Char) :=
  basic false (cs.length + 1) cs

/-- A literal text whose opening apostrophe has been read. -/
def literalLine (cs : List Char) : Except Stop (List Char × List Char) :=
  closed ['\''] isControl cs

/-- Up to two more marks that belong to a text of several lines. -/
def closingMarks (mark : Char) (text rest : List Char) : List Char × List Char :=
  let extra := (rest.takeWhile (· == mark)).take 2
  (text ++ extra, rest.drop extra.length)

/-- A text without the line end it starts with. -/
def dropFirstEnd : List Char → List Char
  | '\n' :: r => r
  | cs => cs

/-- A basic text of several lines whose opening quotes have been read. -/
def basicLines (cs : List Char) : Except Stop (List Char × List Char) := do
  let cs := dropFirstEnd cs
  let (text, rest) ← basic true (cs.length + 1) cs
  pure (closingMarks '"' text rest)

/-- A literal text of several lines whose opening apostrophes have been read. -/
def literalLines (cs : List Char) : Except Stop (List Char × List Char) := do
  let (text, rest) ← closed ['\'', '\'', '\''] isLineControl (dropFirstEnd cs)
  pure (closingMarks '\'' text rest)

/-- A character of a key without quotes. -/
def isBareChar (c : Char) : Bool := c.isAlphanum || c == '-' || c == '_'

/-- A segment of a key. -/
def keyPart (cs : List Char) : Except Stop (String × List Char) :=
  match cs with
  | '\'' :: r => do
    let (text, rest) ← literalLine r
    pure (String.ofList text, rest)
  | '"' :: r => do
    let (text, rest) ← basicLine r
    pure (String.ofList text, rest)
  | cs =>
    match cs.takeWhile isBareChar with
    | [] => .error (.at "Invalid initial character for a key part" cs.length)
    | text => .ok (String.ofList text, cs.dropWhile isBareChar)

/-- A key: segments between points. -/
def keyParts : (fuel : Nat) → List Char → Except Stop (List String × List Char)
  | 0, cs => .error (.at "Invalid initial character for a key part" cs.length)
  | fuel + 1, cs => do
    let (first, rest) ← keyPart cs
    match skip rest with
    | '.' :: r => do
      let (more, rest) ← keyParts fuel (skip r)
      pure (first :: more, rest)
    | rest => pure ([first], rest)

/-- A key, with the blanks behind it. -/
def key (cs : List Char) : Except Stop (List String × List Char) := keyParts (cs.length + 1) cs

end Pagesmith.Toml
