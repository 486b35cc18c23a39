import Pagesmith.Catalogue.Rendering
import Pagesmith.Reading.Prop
import Pagesmith.Text.Part

/-!
Nodes of a page, read from nodes of a schema. Every node keeps the component name of the schema
and its children; its identifier is the one the schema gives, or else is made of its place in the
tree. The imports that the components need are gathered on the way, each source and export once.
-/

namespace Pagesmith.Reading

/-- The identifier made of a place in the tree. -/
def placeId (path : List String) : String := "node_" ++ String.intercalate "_" path

/-- The identifier of a node: the text of the given one, or else its place in the tree. -/
def nodeId (given : Value) (path : List String) : Except Fault String :=
  if given.isNull then .ok (placeId path)
  else do
    let text ← given.text?
    pure (if text == "" then placeId path else text)

/-- The dependency of a component; a named import without a name takes the component's. -/
def materialDependency (m : Material) : Dependency :=
  if m.dependency.destructured && (givenText m.dependency.exportName).isNone then
    { m.dependency with
      exportName := some (String.ofList (Text.cutAt '.' m.component.toList).1) }
  else m.dependency

/-- The property is one that every object of the editor has by nature. -/
def isNative (key : String) (v : Value) : Bool :=
  key == "toString" && match v with
    | .str s => Text.holdsPart "[native code]".toList s.toList
    | _ => false

/-- The tag of a node whose component nobody knows. -/
def fallbackTag : String := "div"

/-- The stand-in for a node whose component nobody knows. -/
def fallback (id name : String) (children : List Node) : NodeOf Node :=
  { id := id, component := fallbackTag, dependency := Dependency.none
    props := [("data-unknown-component", .literal (.str name)),
      ("children", .literal (.str ("Unknown Component: " ++ name)))]
    schemaName := name, children := some children, styles := none, cssClass := none }

/-- A component is not in the catalogue. -/
def unknownNotice (name : String) : Notice :=
  .about .unknownComponent channel .error
    ("No component metadata for " ++ Text.quoted name ++ "; emitting a placeholder")

/-- The content of a slot has an item that is no node. -/
def brokenSlotNotice (index : Nat) (cause : ShapeFault) : Notice :=
  .plain channel .debug
    ("Slot value is not a node list: " ++ (Fault.schemaNode index cause).message)

/-- Styles that are there and not empty. -/
def givenStyles (styles : Option (List (String × Value))) : Option (List (String × Value)) :=
  styles.filter fun ss => !ss.isEmpty

mutual

/-- A node of a page. -/
def node (c : Catalogue) (path : List String) : EditorNode → Gather Node
  | .mk id name props children styles extra => do
    let given : EditorNode := .mk id name props children styles extra
    let owner : Owner := ⟨name, id⟩
    let build (component : String) (dependency : Dependency) : Gather (NodeOf Node) := do
      let ident ← nodeId id path
      let props ← propValues c owner path props
      let children ← match children with
        | some (n :: ns) => do
          let first ← node c (path ++ ["0"]) n
          let rest ← nodes c path 1 ns
          pure (some (first :: rest))
        | _ => pure none
      pure ⟨ident, component, dependency, props, name, children, givenStyles styles, none⟩
    let usual : Gather Node :=
      match c.material? name with
      | none => do
        Job.note (unknownNotice name)
        let ident ← nodeId id path
        let children ← match children with
          | some ns => nodes c path 0 ns
          | none => pure []
        pure (.mk (fallback ident name children))
      | some m => do
        let dependency := materialDependency m
        require dependency
        let layer ← build m.component dependency
        match c.nodeChanges.lookup name with
        | some change => return .mk (← change given layer)
        | none => pure (.mk layer)
    match c.nodeRules.lookup name with
    | none => usual
    | some rule => do
      let context : Context :=
        { path := path, materials := c.materials, build := build
          children := fun place => match children with
            | some ns => eachNode c place ns
            | none => []
          prop := fun key => namedProp c owner path key props }
      match ← rule given context with
      | some m => pure m
      | none => usual

/-- Nodes of the schema, each read as if it stood at the place. -/
def eachNode (c : Catalogue) (path : List String) : List EditorNode → List (Gather Node)
  | [] => []
  | n :: r => node c path n :: eachNode c path r

/-- Nodes at the same place of the tree, counted from `index` on. -/
def nodes (c : Catalogue) (path : List String) (index : Nat) : List EditorNode → Gather (List Node)
  | [] => pure []
  | n :: r => do
    let first ← node c (path ++ [toString index]) n
    let rest ← nodes c path (index + 1) r
    pure (first :: rest)

/-- The properties of a node, except those every object has by nature. -/
def propValues (c : Catalogue) (owner : Owner) (path : List String) :
    List (String × EditorProp) → Gather (List (String × PropOf Node))
  | [] => pure []
  | (key, p) :: r => do
    if isNative key p.value then propValues c owner path r
    else do
      let first ← propValue c owner (path ++ [key]) key p
      let rest ← propValues c owner path r
      pure ((key, first) :: rest)

/-- The property of a name, a literal `null` if it is not there. -/
def namedProp (c : Catalogue) (owner : Owner) (path : List String) (key : String) :
    List (String × EditorProp) → Gather (PropOf Node)
  | [] => pure (.literal .null)
  | (k, p) :: r => if k == key then propValue c owner path key p else namedProp c owner path key r

def propValue (c : Catalogue) (owner : Owner) (path : List String) (key : String) :
    EditorProp → Gather (PropOf Node)
  | .mk v slot => do
    match ← special? (c.propReadings.lookup owner.name) key v owner with
    | some p => pure p
    | none =>
      let entries := v.entries?.getD []
      match (entries.lookup "actions").bind Value.items? with
      | some actions => actionProp key owner actions
      | none =>
        let plain (form : String) : Gather (PropOf Node) := do
          Job.note (malformedNotice key owner form)
          return .literal (← literal key owner v)
        match entries.lookup "type", (entries.lookup "value").bind Value.str? with
        | some (.str "JSExpression"), some text => pure (.expression text)
        | some (.str "JSFunction"), some text => pure (.function text)
        | some (.str "JSExpression"), _ => plain "JSExpression"
        | some (.str "JSFunction"), _ => plain "JSFunction"
        | some (.str "JSSlot"), _ =>
          match slot with
          | .none => plain "JSSlot"
          | .broken index cause => do
            Job.note (brokenSlotNotice index cause)
            plain "JSSlot"
          | .one n => return .node (← node c (path ++ ["0"]) n)
          | .several ns => return .many ((← nodes c path 0 ns).map .node)
          | .endless => Job.fail .endlessSlot
        | _, _ => return .literal (← literal key owner v)

end

end Pagesmith.Reading
