import Pagesmith.Fault

/-!
How many copies of a text can stand one after the other. The number of copies has to be one that
counts characters, and so has the number of characters that come of it, which must also fit in
memory. No copies can always be made, and a number below zero stands for none.
-/

namespace Pagesmith.Text

/-- The first number that does not count characters. -/
def countLimit : Nat := Nat.pow 2 63

/-- A number of characters that is too large for memory. -/
def memoryLimit : Nat := Nat.pow 2 39

/-- Whether `n` copies of a text of `length` characters can be made. -/
def checkCopies (length : Nat) (n : Int) : Except Fault Unit :=
  if (countLimit : Int) ≤ n || n < -(countLimit : Int) then .error .uncountable
  else if countLimit ≤ length * n.toNat then .error .tooManyCopies
  else if memoryLimit ≤ length * n.toNat then .error .outOfMemory
  else .ok ()

end Pagesmith.Text
