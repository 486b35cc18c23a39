/-!
Blank characters and trimming. A blank is any character that Unicode counts as white space or as
a separator of lines or paragraphs, together with the four ASCII information separators.
-/

namespace Pagesmith.Text

/-- The blanks, as ascending closed ranges of code points. -/
def blankRanges : List (Nat × Nat) := [
  (0x09, 0x0d), (0x1c, 0x20), (0x85, 0x85), (0xa0, 0xa0), (0x1680, 0x1680), (0x2000, 0x200a),
  (0x2028, 0x2029), (0x202f, 0x202f), (0x205f, 0x205f), (0x3000, 0x3000)]

/-- White space in the sense of trimming. -/
def isBlank (c : Char) : Bool :=
  blankRanges.any fun r => r.1 ≤ c.toNat && c.toNat ≤ r.2

/-- Drop the longest run at the end whose characters satisfy `p`. -/
def dropEndWhile (p : Char → Bool) (cs : List Char) : List Char :=
  (cs.reverse.dropWhile p).reverse

/-- Drop the runs at both ends whose characters satisfy `p`. -/
def dropBothWhile (p : Char → Bool) (cs : List Char) : List Char :=
  dropEndWhile p (cs.dropWhile p)

def trimEnd (s : String) : String :=
  String.ofList (dropEndWhile isBlank s.toList)

/-- The text without blanks at its ends. -/
def trim (s : String) : String :=
  String.ofList (dropBothWhile isBlank s.toList)

theorem toList_trimEnd (s : String) : (trimEnd s).toList = dropEndWhile isBlank s.toList := by
  simp [trimEnd]

theorem toList_trim (s : String) : (trim s).toList = dropBothWhile isBlank s.toList := by
  simp [trim]

end Pagesmith.Text
