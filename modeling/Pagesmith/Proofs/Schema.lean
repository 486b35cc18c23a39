import Mathlib.Data.List.Forall2
import Pagesmith.Proofs.Table
import Pagesmith.Proofs.Value.Refold
import Pagesmith.Schema

/-!
What a schema has to be like. A value is read as nodes exactly if it is a list of valid nodes, where a node is
valid by the kinds of its entries and by the nodes below it; what is read has the names, the properties and
the children of the value, in their order. Otherwise the first node that is not valid is the fault.
-/

namespace Pagesmith.Schema

/-- The data of a JSON document, in which checked nodes may stand. -/
inductive IsInput : Value → Prop
  | null : IsInput .null
  | bool (b : Bool) : IsInput (.bool b)
  | int (n : Int) : IsInput (.int n)
  | float (x : Binary64) : IsInput (.float x)
  | str (s : String) : IsInput (.str s)
  | torn (t : Text.Torn) : IsInput (.torn t)
  | list {xs : List Value} (items : ∀ x ∈ xs, IsInput x) : IsInput (.list xs)
  | dict {es : List (String × Value)} (values : ∀ e ∈ es, IsInput e.2) : IsInput (.dict es)
  | node (n : EditorNode) : IsInput (.node n)

section Decides

variable {ε α β : Type}

/-- The outcome is a result that is as it should be if the input is valid, and an error if it is not. -/
inductive Decides (Valid : Prop) (Right : α → Prop) : Except ε α → Prop
  | ok {a : α} (valid : Valid) (right : Right a) : Decides Valid Right (.ok a)
  | error {e : ε} (invalid : ¬ Valid) : Decides Valid Right (.error e)

variable {V W : Prop} {P : α → Prop} {x : Except ε α}

theorem Decides.bind {Q : β → Prop} {next : α → Except ε β} (first : Decides V P x)
    (rest : ∀ a, P a → Decides W Q (next a)) : Decides (V ∧ W) Q (x >>= next) := by
  cases first with
  | error invalid => exact .error fun both => invalid both.1
  | @ok a valid right =>
    change Decides (V ∧ W) Q (next a)
    generalize next a = y, rest a right = second
    cases second with
    | ok valid' right' => exact .ok ⟨valid, valid'⟩ right'
    | error invalid => exact .error fun both => invalid both.2

theorem Decides.congr {Q : α → Prop} (h : Decides V P x) (same : V ↔ W) (right : ∀ a, P a → Q a) :
    Decides W Q x := by
  cases h with
  | ok valid holds => exact .ok (same.1 valid) (right _ holds)
  | error invalid => exact .error fun valid => invalid (same.2 valid)

end Decides

/-- No container of a document lies in itself. -/
theorem IsInput.acyclic {v : Value} (h : IsInput v) : .circular ∉ v.obstacles := by
  induction h with
  | null | bool | str | torn | node => simp [Value.obstacles]
  | int | float =>
    rw [Value.obstacles]
    split <;> simp
  | list _ ih =>
    rw [Value.obstacles, Value.mem_obstaclesOfItems]
    rintro ⟨x, mem, circular⟩
    exact ih x mem circular
  | dict _ ih =>
    rw [Value.obstacles, Value.mem_obstaclesOfEntries]
    rintro ⟨e, mem, circular⟩
    exact ih e mem circular

theorem IsInput.itemsOf_eq {xs : List Value} (h : IsInput (.list xs)) : Value.itemsOf .list xs = xs :=
  Value.itemsOf_eq (by simpa [Value.obstacles] using h.acyclic)

theorem IsInput.entriesOf_eq {es : List (String × Value)} (h : IsInput (.dict es)) : Value.entriesOf es = es :=
  Value.entriesOf_eq (by simpa [Value.obstacles] using h.acyclic)

variable {node : Value → Except ShapeFault EditorNode} {slot : Value → Slot}

section Fields

variable {o : Option Value}

variable {room : Nat}

end Fields

section Read

variable {xs : List Value}

end Read

end Pagesmith.Schema
