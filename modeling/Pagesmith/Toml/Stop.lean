import Pagesmith.Fault
import Pagesmith.Text.Quoted

/-!
Where the reading of a TOML document stops. A place is given by the number of characters left
from it on, and shown by its line and column, or as the end of the document.
-/

namespace Pagesmith.Toml

/-- Why reading stops. -/
inductive Stop where
  | at (what : String) (left : Nat)
  | tooManyDigits (count : Nat)
  | tooDeep
deriving DecidableEq

/-- A place in a document, after the characters before it. -/
def placeText (before : List Char) : String :=
  "line " ++ toString (before.count '\n' + 1) ++ ", column " ++
    toString ((before.reverse.takeWhile (· != '\n')).length + 1)

def Stop.fault (document : List Char) : Stop → Fault
  | .at what left =>
    .notToml (what ++ " (at " ++
      (if left == 0 then "end of document"
      else placeText (document.take (document.length - left))) ++ ")")
  | .tooManyDigits count => .integerTooLong count
  | .tooDeep => .tomlTooDeep

/-- Blanks inside a line. -/
def isSpace (c : Char) : Bool := c == ' ' || c == '\t'

/-- Blanks inside a line, and its end. -/
def isSpaceOrEnd (c : Char) : Bool := isSpace c || c == '\n'

/-- Drop blanks inside a line. -/
def skip (cs : List Char) : List Char := cs.dropWhile isSpace

/-- A control that stands in no text and in no comment. -/
def isControl (c : Char) : Bool := c.toNat < 0x20 && c != '\t' || c.toNat == 0x7f

/-- A control that stands in no text of several lines. -/
def isLineControl (c : Char) : Bool := isControl c && c != '\n'

def shownChar (c : Char) : String := Text.quoted (String.singleton c)

/-- Text up to a mark, and the rest from the mark on, if it is there. -/
def upTo? (mark : List Char) : List Char → Option (List Char × List Char)
  | [] => none
  | c :: r =>
    if mark.isPrefixOf (c :: r) then some ([], c :: r)
    else match upTo? mark r with
      | some (text, rest) => some (c :: text, rest)
      | none => none

/-- Fail at the first character of a text that is not allowed in it; `after` characters follow
the text. -/
def checkText (isIllegal : Char → Bool) (after : Nat) : List Char → Except Stop Unit
  | [] => .ok ()
  | c :: r =>
    if isIllegal c then
      .error (.at ("Found invalid character " ++ shownChar c) (r.length + 1 + after))
    else checkText isIllegal after r

/-- Text up to a mark that has to be there, and the rest behind the mark. -/
def closed (mark : List Char) (isIllegal : Char → Bool) (cs : List Char) :
    Except Stop (List Char × List Char) :=
  match upTo? mark cs with
  | none => .error (.at ("Expected " ++ Text.quoted (String.ofList mark)) 0)
  | some (text, rest) => do
    checkText isIllegal rest.length text
    pure (text, rest.drop mark.length)

/-- Drop a comment, if one starts here. -/
def skipComment (cs : List Char) : Except Stop (List Char) :=
  match cs with
  | '#' :: r => do
    let rest := r.dropWhile (· != '\n')
    checkText isControl rest.length (r.takeWhile (· != '\n'))
    pure rest
  | cs => .ok cs

end Pagesmith.Toml
