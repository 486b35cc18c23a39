import Pagesmith.Page.Node
import Pagesmith.Table

/-!
The catalogue of components: for each component of the editor the component of the target it
becomes, the import that provides it, its methods, and the rules by which its nodes are read and
written.
-/

namespace Pagesmith

/-- The property a component method drives, and the value it assigns. -/
structure StateBinding where
  prop : String
  value : Value

/-- A method of a component, such as opening a dialog. -/
structure ComponentMethod where
  name : String
  binding : Option StateBinding
  /-- The event after which the component expects the bound value. -/
  event : Option String
  /-- The event hands over the next value itself. -/
  passesValue : Bool

/-- The description of a component. -/
structure Material where
  component : String
  dependency : Dependency
  isContainer : Bool
  methods : List ComponentMethod

def Material.method? (m : Material) (name : String) : Option ComponentMethod :=
  m.methods.find? (·.name == name)

/-- How the tag of a component is found. -/
inductive TagRule where
  | fixed (tag : String)
  /-- By the kind of text that the property `type` names. -/
  | typography
  /-- The icon that the property `icon` names. -/
  | icon

/-- One step from the properties of a node to those that are written. -/
inductive PropStep where
  /-- Drop what only the editor uses, and these properties. -/
  | strip (names : List String)
  /-- Take every value that is no property value as a literal. -/
  | classify
  /-- Write this property as the children, unless there are children already. -/
  | promote (name : String)
  /-- Give the node's identifier as the property `key`, unless there is one. -/
  | keyed
  /-- Keep the property `name`, which is a form field here. -/
  | fieldName
  /-- Put a single literal value of this property into a list. -/
  | listed (name : String)
  /-- Give a table with literal columns a row to show. -/
  | sampleRows
deriving DecidableEq

/-- How the nodes of a component are written. -/
structure Rendering where
  tag : TagRule
  steps : List PropStep
  /-- Rows are loaded from the address in the property `url`. -/
  loadsRows : Bool

namespace Reading

/-- The node a property belongs to, as notices name it. -/
structure Owner where
  name : String
  id : Value

/-- What a rule has to read a node of the schema with. -/
structure Context where
  /-- The place of the node in the tree. -/
  path : List String
  /-- The components of the catalogue. -/
  materials : List (String × Material)
  /-- The usual construction, as this component. -/
  build : (component : String) → Dependency → Gather (NodeOf Node)
  /-- The children of the node, read as if they stood at a place. -/
  children : (path : List String) → List (Gather Node)
  /-- A property of the node, a literal `null` if it is not there. -/
  prop : (key : String) → Gather (PropOf Node)

end Reading

/-- What becomes of a node of the schema in place of the usual construction, if anything does. -/
abbrev NodeRule := EditorNode → Reading.Context → Reading.Gather (Option Node)

/-- A change to a node after its construction. -/
abbrev NodeChange := EditorNode → NodeOf Node → Job (NodeOf Node)

/-- A reading of property values that comes before all others, where it applies. -/
abbrev PropReading := (key : String) → Value → Reading.Owner → Job (Option (PropOf Node))

/-- The components and the rules about them. -/
structure Catalogue where
  materials : List (String × Material)
  renderings : List (String × Rendering)
  nodeRules : List (String × NodeRule)
  nodeChanges : List (String × NodeChange)
  propReadings : List (String × PropReading)

namespace Catalogue

/-- The catalogue without components and rules. -/
def empty : Catalogue := ⟨[], [], [], [], []⟩

/-- The description of a component. -/
def material? (c : Catalogue) (name : String) : Option Material :=
  c.materials.lookup name

/-- The properties as they are, without what only the editor uses. -/
def standardSteps : List PropStep := [.strip [], .classify]

/-- How the nodes of a component are written: by the rule for it, or under the tag the catalogue
gives, or under the tag of the node. -/
def rendering (c : Catalogue) (name : String) (nodeTag : Option String) : Rendering :=
  match c.renderings.lookup name with
  | some r => r
  | none =>
    let tag := match c.material? name with
      | some m => some m.component
      | none => nodeTag
    ⟨.fixed ((givenText tag).getD name), standardSteps, false⟩

/-- The dependencies of all components, each source and export once. -/
def dependencies (c : Catalogue) : List Dependency :=
  (c.materials.foldl (fun found m =>
    let d := m.2.dependency
    Table.insertNew (d.source, (givenText d.exportName).getD m.2.component) d found)
    ([] : List ((String × String) × Dependency))).map (·.2)

/-- The packages to install for all components, with their versions. A package without a version
is not listed. The view library is always there, and icons go with their components. -/
def packages (c : Catalogue) : List (String × String) :=
  let found := c.dependencies.foldl (fun table d =>
    match givenText d.version with
    | some v => if d.isPackage then Table.insert d.source v table else table
    | none => table) []
  let found := Table.insert "react" "^18.0.0" found
  let found := Table.insert "react-dom" "^18.0.0" found
  if Table.has "antd" found then Table.insert "@ant-design/icons" "^5.0.0" found else found

end Catalogue

end Pagesmith
