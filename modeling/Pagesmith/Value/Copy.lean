import Pagesmith.Fault
import Pagesmith.Value.Json

/-!
Copies of dynamic values that hold JSON data only. A value is copied as it lies in memory, where several containers
can hold the same one, and a container can lie in itself. Functions are left out of mappings and become `null` in
sequences, fixed sequences become lists; a value that still holds something JSON has no form for has no copy. How deep
a value is nested does not matter here, unlike for documents that are read.
-/

namespace Pagesmith.Value

/-- A value that is no container. -/
inductive Leaf where
  | null
  | bool (b : Bool)
  | int (n : Int)
  | float (x : Binary64)
  | str (s : String)
  | torn (t : Text.Torn)
  | bytes (octets : List UInt8)
  | function
  | node (n : EditorNode)
  | foreign (typeName shown text : String)

def Leaf.value : Leaf → Value
  | null => .null
  | bool b => .bool b
  | int n => .int n
  | float x => .float x
  | str s => .str s
  | torn t => .torn t
  | bytes octets => .bytes octets
  | function => .function
  | node n => .node n
  | foreign typeName shown text => .foreign typeName shown text

/-- A value in memory: a leaf, or the container at an address. -/
inductive Datum where
  | leaf (l : Leaf)
  | container (address : Nat)

def Datum.isFunction : Datum → Bool
  | leaf .function => true
  | _ => false

/-- A container, with what it holds. -/
inductive Cell where
  | list (items : List Datum)
  /-- A sequence of fixed length. -/
  | tuple (items : List Datum)
  | dict (entries : List (String × Datum))

/-- The containers by their addresses. -/
abbrev Memory := Array Cell

/-- The container at an address. What lies behind the last one holds nothing. -/
def Memory.cell (m : Memory) (address : Nat) : Cell := m.getD address (.list [])

/-- A walk through memory, which knows the containers it is in and may fail. -/
abbrev Walk (α : Type) := ExceptT Fault (StateM (List Nat)) α

namespace Walk

variable {α : Type}

/-- A walk inside a container, which the walk must not be in already. However it ends, it is out of the container
then. -/
def within (address : Nat) (walk : Walk α) : Walk α :=
  fun active =>
    if address ∈ active then (.error .circular, active)
    else let (outcome, left) := walk (address :: active); (outcome, left.erase address)

/-- An item of a sequence; a function becomes `null`. -/
def item (walk : Datum → Walk Value) (d : Datum) : Walk Value :=
  if d.isFunction then pure .null else walk d

def items (walk : Datum → Walk Value) : List Datum → Walk (List Value)
  | [] => pure []
  | d :: r => do
    let v ← item walk d
    return v :: (← items walk r)

/-- The entries of a mapping; a function is left out with its key. -/
def entries (walk : Datum → Walk Value) : List (String × Datum) → Walk (List (String × Value))
  | [] => pure []
  | (key, d) :: r => do
    if d.isFunction then entries walk r
    else
      let v ← walk d
      return (key, v) :: (← entries walk r)

/-- A container, with lists for fixed sequences. -/
def contents (walk : Datum → Walk Value) : Cell → Walk Value
  | .list ds | .tuple ds => return .list (← items walk ds)
  | .dict es => return .dict (← entries walk es)

/-- The value without functions inside. The walk is in no container twice, so it is never in more of them than there
are. -/
def strip (m : Memory) : (depth : Nat) → Datum → Walk Value
  | _, .leaf l => pure l.value
  | 0, .container _ => throw .circular
  | depth + 1, .container a => within a (contents (strip m depth) (m.cell a))

end Walk

def Obstacle.fault : Obstacle → Fault
  | .alien t => .notSerialisable t
  | .circular => .circular
  | .notFinite => .notFinite
  | .long => .longNumber

/-- The value, if JSON has a form for it. It is then also what its JSON text is read as. -/
def checked (v : Value) : Except Fault Value :=
  match v.obstacles with
  | [] => .ok v
  | o :: _ => .error o.fault

/-- The copy of a value in memory. A container that lies in itself is found before anything else. -/
def Memory.copy (m : Memory) (d : Datum) : Except Fault Value := do
  let v ← (Walk.strip m (m.size + 1) d []).1
  checked v

/-- Put a container behind the others, with contents that may have its address in them. -/
def place (contents : (address : Nat) → StateM Memory Cell) : StateM Memory Datum :=
  fun m =>
    let filled := contents m.size (m.push (.list []))
    (.container m.size, filled.2.setIfInBounds m.size filled.1)

mutual

/-- Put a value into memory; `around` are the addresses of the containers around it. A reference that leads out of all
of them is a list that holds itself. -/
def stored (around : List Nat) : Value → StateM Memory Datum
  | null => pure (.leaf .null)
  | bool b => pure (.leaf (.bool b))
  | int n => pure (.leaf (.int n))
  | float x => pure (.leaf (.float x))
  | str s => pure (.leaf (.str s))
  | torn t => pure (.leaf (.torn t))
  | bytes octets => pure (.leaf (.bytes octets))
  | function => pure (.leaf .function)
  | node n => pure (.leaf (.node n))
  | foreign typeName shown text => pure (.leaf (.foreign typeName shown text))
  | list xs => place fun a => return .list (← storedItems (a :: around) xs)
  | tuple xs => place fun a => return .tuple (← storedItems (a :: around) xs)
  | dict es => place fun a => return .dict (← storedEntries (a :: around) es)
  | back level => match around[level]? with
    | some a => pure (.container a)
    | none => place fun a => pure (.list [.container a])

/-- Put the items of a sequence into memory. -/
def storedItems (around : List Nat) : List Value → StateM Memory (List Datum)
  | [] => pure []
  | x :: r => do
    let d ← stored around x
    return d :: (← storedItems around r)

/-- Put the values of a mapping into memory. -/
def storedEntries (around : List Nat) : List (String × Value) → StateM Memory (List (String × Datum))
  | [] => pure []
  | (key, x) :: r => do
    let d ← stored around x
    return (key, d) :: (← storedEntries around r)

end

/-- The copy of a value. -/
def copy (v : Value) : Except Fault Value :=
  let (d, m) := stored [] v #[]
  Memory.copy m d

end Pagesmith.Value
