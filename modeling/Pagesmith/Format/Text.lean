import Pagesmith.Text.Blank

/-!
The form of written text: lines end with a line feed, indentation at the start of a line has
spaces for tabs, blank lines stand only between other lines and only so many in a row, and the
last line is closed.
-/

namespace Pagesmith.Format

/-- What is wanted of the form of a file. -/
structure Options where
  /-- The number of spaces for one step of indentation. -/
  indent : Nat
  /-- The number of characters that markup should have on a line. -/
  lineWidth : Nat
  closesLastLine : Bool
  /-- Lines have no blanks at their end. -/
  trimsLines : Bool
  /-- The number of blank lines that may follow each other. -/
  blankLines : Nat
deriving DecidableEq

/-- Two spaces, eighty characters, one blank line. -/
def Options.default : Options := ⟨2, 80, true, true, 1⟩

/-- The lines of a text, ended by a line feed, by a carriage return, or by both in this order. -/
def linesOf : List Char → List (List Char)
  | [] => [[]]
  | '\r' :: '\n' :: r => [] :: linesOf r
  | c :: r =>
    if c == '\r' || c == '\n' then [] :: linesOf r
    else match linesOf r with
      | [] => [[c]]
      | l :: ls => (c :: l) :: ls

/-- The line holds blanks only. -/
def isBlankLine (l : List Char) : Bool := l.all Text.isBlank

/-- Spaces for the tabs at the start of a line. -/
def untab (indent : Nat) (l : List Char) : List Char :=
  List.replicate (indent * (l.takeWhile (· == '\t')).length) ' ' ++ l.dropWhile (· == '\t')

def line (o : Options) (l : List Char) : List Char :=
  let l := untab o.indent l
  if o.trimsLines then Text.dropEndWhile Text.isBlank l else l

/-- Lines with at most `limit` blank lines in a row, the first `room` of these still to come. -/
def squeeze (limit : Nat) : (room : Nat) → List (List Char) → List (List Char)
  | _, [] => []
  | 0, l :: r => if isBlankLine l then squeeze limit 0 r else l :: squeeze limit limit r
  | room + 1, l :: r =>
    if isBlankLine l then l :: squeeze limit room r else l :: squeeze limit limit r

/-- Items without the run at their end that satisfies `p`. -/
def dropLastWhile {α : Type} (p : α → Bool) (xs : List α) : List α :=
  (xs.reverse.dropWhile p).reverse

def body (o : Options) (cs : List Char) : List (List Char) :=
  let ls := ((linesOf cs).map (line o)).dropWhile isBlankLine
  dropLastWhile isBlankLine (squeeze o.blankLines o.blankLines ls)

def text (o : Options) (s : String) : String :=
  match body o s.toList with
  | [] => ""
  | ls => String.ofList (['\n'].intercalate ls ++ if o.closesLastLine then ['\n'] else [])

end Pagesmith.Format
