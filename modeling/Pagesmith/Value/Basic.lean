import Pagesmith.Number.Binary64
import Pagesmith.Text.Loose

/-!
Dynamic data, as it comes in with a schema or a settings file: the values of JSON, in which
objects keep the order of their keys, together with what else a caller can hand over (octets,
fixed sequences, a function, a checked editor node, containers that lie in themselves).

A container that lies in itself, at any depth, is written with a reference to it: `back 0` is the container around
the reference, `back 1` the one around that, and so on. References do not lead out of a checked node. What a container
holds is seen with the references to it resolved, by `entries?` and `items?`.
-/

namespace Pagesmith

/-- Why a value is no editor node. -/
inductive ShapeFault where
  | missingName
  | notText
  | notUnicode
  | notMapping
  | notList
  | notNode
  /-- Too many nodes lie around the value. -/
  | tooDeep
deriving DecidableEq

mutual

/-- A dynamic value. -/
inductive Value where
  | null
  | bool (b : Bool)
  | int (n : Int)
  | float (x : Binary64)
  | str (s : String)
  /-- A text in which halves of characters stand alone. -/
  | torn (t : Text.Torn)
  | list (items : List Value)
  | dict (entries : List (String × Value))
  /-- A sequence of fixed length. -/
  | tuple (items : List Value)
  | bytes (octets : List UInt8)
  | function
  /-- An editor node that has been checked before. -/
  | node (n : EditorNode)
  /-- A container around this place, counted from the innermost one on. -/
  | back (level : Nat)
  /-- Anything else, known by its type's name, by how it would be written down, and by its text. -/
  | foreign (typeName shown text : String)

/-- One node of an editor schema, as far as its shape has been checked. -/
inductive EditorNode where
  | mk (id : Value) (name : String) (props : List (String × EditorProp))
      (children : Option (List EditorNode)) (styles : Option (List (String × Value)))
      (extra : List (String × Value))

/-- A property of an editor node: its value, and the nodes the value carries if it is a slot. -/
inductive EditorProp where
  | mk (value : Value) (slot : Slot)

/-- What a property value carries as a slot for nodes. -/
inductive Slot where
  /-- The value is no slot, or its content is nothing that could be nodes. -/
  | none
  /-- The content has the right outer form, but the item with this number is no node. -/
  | broken (index : Nat) (cause : ShapeFault)
  /-- The content is one node. -/
  | one (n : EditorNode)
  | several (ns : List EditorNode)
  /-- The content leads back to the value itself, from slot to slot. -/
  | endless

end

instance : Inhabited Value := ⟨.null⟩

instance : Inhabited EditorNode := ⟨.mk .null "" [] none none []⟩

def EditorProp.value : EditorProp → Value | mk v _ => v

namespace EditorNode

/-- The identifier given in the schema, `null` if there is none. -/
def id : EditorNode → Value | mk v _ _ _ _ _ => v

/-- The name of the component the node is an instance of. -/
def name : EditorNode → String | mk _ s _ _ _ _ => s

/-- The properties, in the order of the schema. -/
def props : EditorNode → List (String × EditorProp) | mk _ _ ps _ _ _ => ps

/-- The child nodes, if the schema lists any. -/
def children : EditorNode → Option (List EditorNode) | mk _ _ _ cs _ _ => cs

/-- The styles, if the schema gives any. -/
def styles : EditorNode → Option (List (String × Value)) | mk _ _ _ _ ss _ => ss

/-- The entries of the schema object that no rule knows. -/
def extra : EditorNode → List (String × Value) | mk _ _ _ _ _ es => es

/-- The value of a property, if the node has it. -/
def prop? (n : EditorNode) (key : String) : Option Value :=
  (n.props.lookup key).map EditorProp.value

/-- The schema lists at least one child. -/
def hasChildren (n : EditorNode) : Bool :=
  match n.children with
  | some (_ :: _) => true
  | _ => false

/-- The fields with their values, those that no rule knows behind the others. -/
def fields (n : EditorNode) : List (String × Value) :=
  [("id", n.id), ("name", .str n.name), ("props", .dict (n.props.map fun p => (p.1, p.2.value))),
    ("children", match n.children with
      | none => .null
      | some ns => .list (ns.map .node)),
    ("styles", match n.styles with
      | none => .null
      | some es => .dict es)] ++ n.extra

end EditorNode

namespace Value

/-- The name of a value's type, as messages give it. -/
def typeName : Value → String
  | null => "NoneType"
  | bool _ => "bool"
  | int _ => "int"
  | float _ => "float"
  | str _ | torn _ => "str"
  | list _ => "list"
  | dict _ | back _ => "dict"
  | tuple _ => "tuple"
  | bytes _ => "bytes"
  | function => "builtin_function_or_method"
  | node _ => "SchemaNode"
  | foreign t .. => t

/-- Null, false, zero and everything empty do not count as given. -/
def isTruthy : Value → Bool
  | null => false
  | bool b => b
  | int n => n != 0
  | float x => !x.isZero
  | str s => s != ""
  | list xs | tuple xs => !xs.isEmpty
  | dict es => !es.isEmpty
  | bytes bs => !bs.isEmpty
  | torn _ | function | node _ | back _ | foreign .. => true

/-- The value is `null`. -/
def isNull : Value → Bool
  | null => true
  | _ => false

/-- The value is `null` or the empty text. -/
def isBlank : Value → Bool
  | null => true
  | str s => s == ""
  | _ => false

mutual

/-- The value with what `self` says for the references that lead out of it to the container at this level. -/
def refold (self : (level : Nat) → Value) (level : Nat) : Value → Value
  | list xs => list (refoldItems self (level + 1) xs)
  | tuple xs => tuple (refoldItems self (level + 1) xs)
  | dict es => dict (refoldEntries self (level + 1) es)
  | back l => if l == level then self level else back l
  | v => v

def refoldItems (self : (level : Nat) → Value) (level : Nat) : List Value → List Value
  | [] => []
  | x :: r => refold self level x :: refoldItems self level r

def refoldEntries (self : (level : Nat) → Value) (level : Nat) : List (String × Value) → List (String × Value)
  | [] => []
  | (k, x) :: r => (k, refold self level x) :: refoldEntries self level r

end

mutual

/-- How many containers a value is made of. -/
def containers : Value → Nat
  | list xs | tuple xs => containersOfItems xs + 1
  | dict es => containersOfEntries es + 1
  | _ => 0

def containersOfItems : List Value → Nat
  | [] => 0
  | x :: r => containers x + containersOfItems r

def containersOfEntries : List (String × Value) → Nat
  | [] => 0
  | (_, x) :: r => containers x + containersOfEntries r

end

/-- The items of a sequence as values of their own. Seen from an item, the sequence holds the item. -/
def itemsOf (sequence : List Value → Value) (xs : List Value) : List Value :=
  xs.mapIdx fun i x => refold (fun level => sequence (xs.set i (back level))) 0 x

/-- The entries of a mapping with values of their own. Seen from a value, the mapping holds the value. -/
def entriesOf (es : List (String × Value)) : List (String × Value) :=
  es.mapIdx fun i e => (e.1, refold (fun level => dict (es.set i (e.1, back level))) 0 e.2)

/-- The entries of a mapping. -/
def entries? : Value → Option (List (String × Value))
  | dict es => some (entriesOf es)
  | _ => none

def items? : Value → Option (List Value)
  | list xs => some (itemsOf list xs)
  | _ => none

/-- The most digits a whole number may have in a text. -/
def digitLimit : Nat := 4300

/-- A whole number has more digits than a text may have. -/
@[irreducible]
def isLongNumber (n : Int) : Bool := decide (Nat.pow 10 digitLimit ≤ n.natAbs)

theorem isLongNumber_iff {n : Int} : isLongNumber n = true ↔ Nat.pow 10 digitLimit ≤ n.natAbs := by
  unfold isLongNumber
  exact decide_eq_true_iff

theorem isLongNumber_of_lt {n : Int} {k : Nat} (less : n.natAbs < Nat.pow 10 k) (few : k ≤ digitLimit) :
    isLongNumber n = false := by
  have grows (m : Nat) : k ≤ m → Nat.pow 10 k ≤ Nat.pow 10 m := Nat.pow_le_pow_right (by decide)
  rw [← Bool.not_eq_true, isLongNumber_iff]
  exact Nat.not_le.2 (Nat.lt_of_lt_of_le less (grows digitLimit few))

/-- The text of a textual value. -/
def str? : Value → Option String
  | str s => some s
  | torn t => some t.letters.text
  | _ => none

/-- The letters of a textual value. -/
def letters? : Value → Option Text.Loose
  | str s => some s
  | torn t => some t.letters
  | _ => none

end Value

end Pagesmith
