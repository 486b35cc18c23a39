import Pagesmith.Page.Node

/-!
Property values as dynamic values. A list that mixes actions, nodes and other things is no
property value of its own; it is taken as a plain list whose classified items are known by their
type and text only.
-/

namespace Pagesmith

/-- An optional text, as it would be written down. -/
def showOptional : Option String → String
  | none => "None"
  | some s => Text.quoted s

def showRecord (name : String) (fields : List (String × String)) : String :=
  name ++ "(" ++ String.intercalate ", " (fields.map fun f => f.1 ++ "=" ++ f.2) ++ ")"

/-- The text of a dependency. -/
def Dependency.shown (d : Dependency) : String :=
  showRecord "Dependency" [
    ("source", Text.quoted d.source), ("export_name", showOptional d.exportName),
    ("sub_name", showOptional d.subName),
    ("destructuring", if d.destructured then "True" else "False"),
    ("version", showOptional d.version)]

/-- The text of an action. -/
def Action.shown (a : Action) : String :=
  showRecord "Action" [("action_type", Text.quoted a.kind), ("config", a.config.shown)]

namespace PropOf

variable {ν : Type}

mutual

/-- The text of a property value. -/
def shown (showNode : ν → String) : PropOf ν → String
  | literal v => showRecord "Literal" [("value", v.shown)]
  | reference name => showRecord "VariableRef" [("name", Text.quoted name)]
  | expression t => showRecord "Expression" [("text", Text.quoted t)]
  | function t => showRecord "FunctionBody" [("text", Text.quoted t)]
  | action a => a.shown
  | node n => showNode n
  | many items => Value.showItems (shownAll showNode items)
  | raw v => v.shown

/-- The texts of several property values. -/
def shownAll (showNode : ν → String) : List (PropOf ν) → List String
  | [] => []
  | p :: r => shown showNode p :: shownAll showNode r

end

mutual

def asValue (showNode : ν → String) : PropOf ν → Value
  | raw v => v
  | many items => .list (asValues showNode items)
  | p => .foreign p.typeName (shown showNode p) (shown showNode p)

def asValues (showNode : ν → String) : List (PropOf ν) → List Value
  | [] => []
  | p :: r => asValue showNode p :: asValues showNode r

end

end PropOf

namespace Node

/-- A node's text, its properties and children already shown. -/
def showLayer (layer : NodeOf Node) (props : List (String × String))
    (children : Option (List String)) : String :=
  showRecord "Node" [
    ("id", Text.quoted layer.id), ("component_name", Text.quoted layer.component),
    ("dependency", layer.dependency.shown), ("props", Value.showEntries props),
    ("schema_name", Text.quoted layer.schemaName),
    ("children", (children.map Value.showItems).getD "None"),
    ("styles", match layer.styles with
      | none => "None"
      | some ss => (Value.dict ss).shown),
    ("css_class", showOptional layer.cssClass)]

mutual

/-- The text of a node. -/
def shown : Node → String
  | mk ⟨id, component, dependency, props, schemaName, children, styles, cssClass⟩ =>
    showLayer ⟨id, component, dependency, props, schemaName, children, styles, cssClass⟩
      (shownProps props) (shownChildren children)

def shownChildren : Option (List Node) → Option (List String)
  | none => none
  | some ns => some (shownNodes ns)

/-- The texts of several nodes. -/
def shownNodes : List Node → List String
  | [] => []
  | n :: r => shown n :: shownNodes r

/-- The texts of properties. -/
def shownProps : List (String × PropOf Node) → List (String × String)
  | [] => []
  | (k, p) :: r => (k, shownProp p) :: shownProps r

/-- The text of a property value in a page tree. -/
def shownProp : PropOf Node → String
  | .node n => shown n
  | .many items => Value.showItems (shownItems items)
  | p => PropOf.shown (fun _ => "") p

/-- The texts of several property values in a page tree. -/
def shownItems : List (PropOf Node) → List String
  | [] => []
  | p :: r => shownProp p :: shownItems r

end

end Node

end Pagesmith
