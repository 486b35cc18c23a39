/-!
Parts of a text: how it starts and ends, what it holds, where it is cut, and its lines. A line ends at any of ten
separators, a carriage return followed by a line feed counting once; the end of the text closes the last line only
if something follows the last separator.
-/

namespace Pagesmith.Text

/-- The text starts with `start`. -/
def hasStart (start s : String) : Bool :=
  start.toList.isPrefixOf s.toList

/-- The text ends with `ending`. -/
def hasEnding (ending s : String) : Bool :=
  ending.toList.isSuffixOf s.toList

/-- The text without its first `n` characters. -/
def dropChars (n : Nat) (s : String) : String :=
  String.ofList (s.toList.drop n)

/-- The characters `part` stand together somewhere in the text. -/
def holdsPart (part : List Char) : List Char → Bool
  | [] => part.isEmpty
  | c :: r => part.isPrefixOf (c :: r) || holdsPart part r

/-- The pieces between the separators; a text without any is one piece. -/
def pieces {α : Type} [DecidableEq α] (separator : α) : List α → List (List α)
  | [] => [[]]
  | c :: r =>
    if c == separator then [] :: pieces separator r
    else match pieces separator r with
      | [] => [[c]]
      | p :: ps => (c :: p) :: ps

/-- The text before the first separator, and what follows it if there is one. -/
def cutAt (separator : Char) : List Char → List Char × Option (List Char)
  | [] => ([], none)
  | c :: r =>
    if c == separator then ([], some r)
    else let (head, rest) := cutAt separator r; (c :: head, rest)

/-- The text filled up with spaces at its end to at least `width` characters. -/
def padEnd (width : Nat) (s : String) : String :=
  s ++ String.ofList (List.replicate (width - s.length) ' ')

def isLineEnd (c : Char) : Bool :=
  (0x0a ≤ c.toNat && c.toNat ≤ 0x0d) || (0x1c ≤ c.toNat && c.toNat ≤ 0x1e) ||
    c.toNat == 0x85 || c.toNat == 0x2028 || c.toNat == 0x2029

/-- The lines of a text, without their separators. -/
def splitLines : List Char → List (List Char)
  | [] => []
  | '\r' :: '\n' :: r => [] :: splitLines r
  | c :: r =>
    if isLineEnd c then [] :: splitLines r
    else match splitLines r with
      | [] => [[c]]
      | l :: ls => (c :: l) :: ls

/-- The lines of a text, without their separators. -/
def lines (s : String) : List String :=
  (splitLines s.toList).map String.ofList

/-- Lines joined by line feeds. -/
def unlines (ls : List String) : String :=
  String.intercalate "\n" ls

/-- Every line end as a line feed: a carriage return, alone or in front of a line feed, is one. -/
def unifyEnds : List Char → List Char
  | [] => []
  | '\r' :: '\n' :: r => '\n' :: unifyEnds r
  | c :: r => (if c == '\r' then '\n' else c) :: unifyEnds r

end Pagesmith.Text
