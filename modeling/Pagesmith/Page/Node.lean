import Pagesmith.Page.Dependency
import Pagesmith.Table
import Pagesmith.Value.Basic
import Pagesmith.Value.Text

/-!
Page trees. A property value is a literal, a reference, code, an action, a node in a slot, or
several of these; `PropOf` and `NodeOf` leave open what a node is, so that the same rules serve
trees, numbered nodes, and nodes that have been worked on already. `Node` closes the tree.
-/

namespace Pagesmith

/-- What an event does, said by a kind and its settings. -/
structure Action where
  kind : String
  config : Value

/-- A setting of an action, `null` if it is not there. -/
def Action.setting (a : Action) (key : String) : Value :=
  ((a.config.entries?.getD []).lookup key).getD .null

inductive PropOf (ν : Type) where
  | literal (v : Value)
  | reference (name : String)
  | expression (text : String)
  | function (text : String)
  | action (a : Action)
  | node (n : ν)
  | many (items : List (PropOf ν))
  /-- A value that nobody has classified. -/
  | raw (v : Value)
deriving Inhabited

/-- A component instance over nodes of a type. -/
structure NodeOf (ν : Type) where
  id : String
  component : String
  dependency : Dependency
  props : List (String × PropOf ν)
  schemaName : String
  children : Option (List ν)
  styles : Option (List (String × Value))
  cssClass : Option String

/-- A page tree. -/
inductive Node where
  | mk (layer : NodeOf Node)

/-- The node's own data. -/
def Node.layer : Node → NodeOf Node
  | mk l => l

/-- A node of no component. -/
def Node.blank : Node := .mk ⟨"", "", Dependency.none, [], "", none, none, none⟩

instance : Inhabited Node := ⟨.blank⟩

namespace PropOf

variable {ν : Type}

/-- The value is an action. -/
def action? : PropOf ν → Option Action
  | action a => some a
  | _ => none

/-- The value is a node in a slot. -/
def node? : PropOf ν → Option ν
  | node n => some n
  | _ => none

/-- The value is at least one action and nothing else. -/
def isActionList : PropOf ν → Bool
  | many items => !items.isEmpty && items.all fun p => p.action?.isSome
  | _ => false

/-- The value is at least one node in a slot and nothing else. -/
def isSlotList : PropOf ν → Bool
  | many items => !items.isEmpty && items.all fun p => p.node?.isSome
  | _ => false

/-- The actions of a value that is nothing else. -/
def actions : PropOf ν → List Action
  | action a => [a]
  | many items =>
    if items.all fun p => p.action?.isSome then items.filterMap action? else []
  | _ => []

def slotNodes : PropOf ν → List ν
  | node n => [n]
  | many items =>
    if items.all fun p => p.node?.isSome then items.filterMap node? else []
  | _ => []

/-- The name of the value's type, as messages give it. -/
def typeName : PropOf ν → String
  | literal _ => "Literal"
  | reference _ => "VariableRef"
  | expression _ => "Expression"
  | function _ => "FunctionBody"
  | action _ => "Action"
  | node _ => "Node"
  | many _ => "list"
  | raw v => v.typeName

/-- The literal value, if the property is one. -/
def literal? : PropOf ν → Option Value
  | literal v => some v
  | _ => none

/-- The property is a literal `null` or a literal empty text. -/
def isBlankLiteral : PropOf ν → Bool
  | literal v => v.isBlank
  | _ => false

end PropOf

/-- What a page function does. -/
inductive PageMethod where
  /-- The source of the function. -/
  | function (text : String)
  /-- Set a state to a value, or to the function's argument. -/
  | setter (state : String) (value : Value) (fromEvent : Bool)

/-- One routed page. -/
structure Page where
  id : String
  fileName : String
  root : Node
  dependencies : List Dependency
  states : List (String × Value)
  methods : List (String × PageMethod)
  title : Option String

/-- All pages of a project, and the packages it needs with their versions. -/
structure Project where
  pages : List Page
  manifest : List (String × String)

end Pagesmith
