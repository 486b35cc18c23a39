import Pagesmith.Fault
import Pagesmith.Text.Utf8

/-!
Editor schemas: lists of nodes, each an object with a name and, if given, an identifier,
properties, children and styles. A value is read as far as its shape shows; the first fault counts
in the order identifier, name, properties, children, styles. Property values are kept as they are,
together with the nodes they carry if they are slots. Child nodes lie only so deep; what a slot
carries is counted from there anew.
-/

namespace Pagesmith.Schema

/-- How many nodes can lie one inside the other. -/
def depthLimit : Nat := 254

/-- The entries of a node object, each read for itself. -/
structure Fields where
  id : Value := .null
  name : Except ShapeFault String := .error .missingName
  props : Except ShapeFault (List (String × EditorProp)) := .ok []
  children : Except ShapeFault (Option (List EditorNode)) := .ok none
  styles : Except ShapeFault (Option (List (String × Value))) := .ok none
  extra : List (String × Value) := []

/-- The node with these fields, or the first fault among them. -/
def Fields.node (f : Fields) : Except ShapeFault EditorNode := do
  let name ← f.name
  let props ← f.props
  let children ← f.children
  let styles ← f.styles
  pure (.mk f.id name props children styles f.extra)

/-- A value as a name; octets count if they are a text. -/
def nameOf : Value → Except ShapeFault String
  | .str s => .ok s
  | .torn _ => .error .notUnicode
  | .bytes bs => match Text.ofOctets? bs with
    | .ok s => .ok s
    | .error _ => .error .notUnicode
  | _ => .error .notText

def stylesOf (v : Value) : Except ShapeFault (Option (List (String × Value))) :=
  if v.isNull then .ok none
  else match v.entries? with
    | some es => .ok (some es)
    | none => .error .notMapping

/-- The value is a mapping or a checked node, so that it may be meant as a node. -/
def isNodeLike : Value → Bool
  | .dict _ | .node _ => true
  | _ => false

/-- The mapping says that it is a slot. -/
def isSlot (entries : List (String × Value)) : Bool :=
  match entries.lookup "type" with
  | some (.str s) => s == "JSSlot"
  | _ => false

/-- The content of a slot, if it may be meant as nodes: a node, or a list with at least one item and of nodes only. -/
def slotContent? (v : Value) : Option Value := do
  let entries ← v.entries?
  if !isSlot entries then none
  else
    let content ← entries.lookup "value"
    let meant := match content with
      | .list xs => !xs.isEmpty && (Value.itemsOf .list xs).all isNodeLike
      | x => isNodeLike x
    if meant then some content else none

/-- The slot whose content is one node, or fails to be one. -/
def slotOfOne : Except ShapeFault EditorNode → Slot
  | .ok n => .one n
  | .error cause => .broken 0 cause

/-- The slot whose content is a list of nodes, or fails to be one at some item. -/
def slotOfSeveral : Except (Nat × ShapeFault) (List EditorNode) → Slot
  | .ok ns => .several ns
  | .error (index, cause) => .broken index cause

section Read

variable (read : Value → Except ShapeFault EditorNode) (slot : Value → Slot)

/-- Values as nodes, counted from `index` on; the first that is none is the fault. -/
def nodesFrom (index : Nat) : List Value → Except (Nat × ShapeFault) (List EditorNode)
  | [] => .ok []
  | x :: r => match read x with
    | .error cause => .error (index, cause)
    | .ok n => match nodesFrom (index + 1) r with
      | .error e => .error e
      | .ok ns => .ok (n :: ns)

/-- A value as child nodes; `null` stands for no list of them. -/
def childrenOf (v : Value) : Except ShapeFault (Option (List EditorNode)) :=
  let nodes (xs : List Value) := match nodesFrom read 0 xs with
    | .ok ns => .ok (some ns)
    | .error (_, cause) => .error cause
  match v with
  | .null => .ok none
  | .list xs => nodes (Value.itemsOf .list xs)
  | .tuple xs => nodes (Value.itemsOf .tuple xs)
  | _ => .error .notList

/-- A value as properties; `null` stands for none. -/
def propsOf (v : Value) : Except ShapeFault (List (String × EditorProp)) :=
  if v.isNull then .ok []
  else match v.entries? with
    | some es => .ok (es.map fun e => (e.1, .mk e.2 (slot e.2)))
    | none => .error .notMapping

/-- The entries of an object as the fields of a node. -/
def fieldsOf : List (String × Value) → Fields
  | [] => {}
  | (k, v) :: r =>
    let f := fieldsOf r
    if k == "id" then { f with id := v }
    else if k == "name" then { f with name := nameOf v }
    else if k == "props" then { f with props := propsOf slot v }
    else if k == "children" then { f with children := childrenOf read v }
    else if k == "styles" then { f with styles := stylesOf v }
    else { f with extra := (k, v) :: f.extra }

/-- The nodes that a property value carries. -/
def slotOf (v : Value) : Slot :=
  match slotContent? v with
  | none => .none
  | some (.list xs) => slotOfSeveral (nodesFrom read 0 (Value.itemsOf .list xs))
  | some x => slotOfOne (read x)

end Read

/-- A value as a node with room for so many nodes one inside the other. -/
def nodeOf (slot : Value → Slot) : (room : Nat) → Value → Except ShapeFault EditorNode
  | 0, _ => .error .tooDeep
  | _ + 1, .node n => .ok n
  | room + 1, v => match v.entries? with
    | some es => (fieldsOf (nodeOf slot room) slot es).node
    | none => .error .notNode

/-- The nodes that a property value carries. Slots that lie `depth` deep in it carry the value itself again, if there
are no more containers than that. -/
def slotWithin : (depth : Nat) → Value → Slot
  | 0, v => if (slotContent? v).isSome then .endless else .none
  | depth + 1, v => slotOf (nodeOf (slotWithin depth) depthLimit) v

/-- A schema as its nodes. A value that does not count as given is an empty schema. -/
def read (schema : Value) : Except Fault (List EditorNode) :=
  let nodes (xs : List Value) :=
    (nodesFrom (nodeOf (slotWithin schema.containers) depthLimit) 0 xs).mapError fun e => .schemaNode e.1 e.2
  if !schema.isTruthy then .ok []
  else match schema with
    | .list xs => nodes (Value.itemsOf .list xs)
    | .tuple xs => nodes (Value.itemsOf .tuple xs)
    | v => .error (.schemaType v.typeName)

end Pagesmith.Schema
