import Pagesmith.Number.Shortest
import Pagesmith.Text.Digit
import Pagesmith.Value.Basic

/-!
JSON text of a dynamic value, on one line or indented. Only quotes, backslashes, the controls
below the space and halves of characters are escaped; numbers are the shortest that read back. `obstacles` lists, in
document order, what a value holds that JSON has no form for; the text writes `null` there.
-/

namespace Pagesmith.Value

/-- The spelling of numbers that are not finite, in JSON text. -/
def jsonNumbers : Binary64.Spelling := ⟨"NaN", "Infinity"⟩

/-- One character inside a JSON string. -/
def jsonChar (c : Char) : List Char :=
  if c == '"' then ['\\', '"']
  else if c == '\\' then ['\\', '\\']
  else if c == '\n' then ['\\', 'n']
  else if c == '\r' then ['\\', 'r']
  else if c == '\t' then ['\\', 't']
  else if c.toNat == 8 then ['\\', 'b']
  else if c.toNat == 12 then ['\\', 'f']
  else if c.toNat < 0x20 then '\\' :: 'u' :: Text.hexDigits 4 c.toNat
  else [c]

def jsonString (s : String) : String :=
  String.ofList ('"' :: s.toList.flatMap jsonChar ++ ['"'])

/-- One letter of a text inside a JSON string. Half of a character has only its escape, since a text of characters
cannot hold it. -/
def jsonLetter : Text.Letter → List Char
  | .char c => jsonChar c
  | .half n => '\\' :: 'u' :: Text.hexDigits 4 (0xd800 + n.val)

def jsonTorn (t : Text.Torn) : String :=
  String.ofList ('"' :: t.letters.flatMap jsonLetter ++ ['"'])

/-- What cannot be written as JSON text. -/
inductive Obstacle where
  /-- A value of a type JSON does not know. -/
  | alien (typeName : String)
  /-- A container that holds itself. -/
  | circular
  /-- A number that is not finite. -/
  | notFinite
  /-- A whole number with more digits than a text may have. -/
  | long
deriving DecidableEq

mutual

/-- What stands in the way of JSON text, in document order. -/
def obstacles : Value → List Obstacle
  | null | bool _ | str _ | torn _ => []
  | int n => if isLongNumber n then [.long] else []
  | float x => if x.isFinite then [] else [.notFinite]
  | list xs | tuple xs => obstaclesOfItems xs
  | dict es => obstaclesOfEntries es
  | bytes _ => [.alien "bytes"]
  | function => [.alien "builtin_function_or_method"]
  | node _ => [.alien "SchemaNode"]
  | back _ => [.circular]
  | foreign t .. => [.alien t]

/-- What stands in the way of JSON text in a sequence. -/
def obstaclesOfItems : List Value → List Obstacle
  | [] => []
  | x :: r => obstacles x ++ obstaclesOfItems r

/-- What stands in the way of JSON text in a mapping. -/
def obstaclesOfEntries : List (String × Value) → List Obstacle
  | [] => []
  | (_, x) :: r => obstacles x ++ obstaclesOfEntries r

end

mutual

/-- JSON text on one line. -/
def json : Value → String
  | null => "null"
  | bool b => if b then "true" else "false"
  | int n => toString n
  | float x => x.text jsonNumbers
  | str s => jsonString s
  | torn t => jsonTorn t
  | list xs | tuple xs => "[" ++ String.intercalate ", " (jsonItems xs) ++ "]"
  | dict es => "\x7b" ++ String.intercalate ", " (jsonEntries es) ++ "\x7d"
  | bytes _ | function | node _ | back _ | foreign .. => "null"

/-- The JSON texts of the items of a sequence. -/
def jsonItems : List Value → List String
  | [] => []
  | x :: r => json x :: jsonItems r

/-- The JSON texts of the entries of a mapping. -/
def jsonEntries : List (String × Value) → List String
  | [] => []
  | (k, v) :: r => (jsonString k ++ ": " ++ json v) :: jsonEntries r

end

/-- Items between brackets, each on a line of its own; nothing between them if there are none. -/
def bracketed (left right outer inner : String) (items : List String) : String :=
  if items.isEmpty then left ++ right
  else left ++ inner ++ String.intercalate ("," ++ inner) items ++ outer ++ right

/-- A line feed and `n` spaces. -/
def newline (n : Nat) : String := String.ofList ('\n' :: List.replicate n ' ')

mutual

/-- JSON text with every item on a line of its own, `step` spaces deeper than its container. -/
def indented (step depth : Nat) : Value → String
  | list xs | tuple xs =>
    bracketed "[" "]" (newline depth) (newline (depth + step))
      (indentedItems step (depth + step) xs)
  | dict es =>
    bracketed "\x7b" "\x7d" (newline depth) (newline (depth + step))
      (indentedEntries step (depth + step) es)
  | null => "null"
  | bool b => if b then "true" else "false"
  | int n => toString n
  | float x => x.text jsonNumbers
  | str s => jsonString s
  | torn t => jsonTorn t
  | bytes _ | function | node _ | back _ | foreign .. => "null"

/-- The indented texts of the items of a sequence. -/
def indentedItems (step depth : Nat) : List Value → List String
  | [] => []
  | x :: r => indented step depth x :: indentedItems step depth r

/-- The indented texts of the entries of a mapping. -/
def indentedEntries (step depth : Nat) : List (String × Value) → List String
  | [] => []
  | (k, v) :: r => (jsonString k ++ ": " ++ indented step depth v) :: indentedEntries step depth r

end

end Pagesmith.Value
