import Pagesmith.Page.Node

/-!
Going through a page tree: a node comes before its children, and its children before the nodes in
its slots.
-/

namespace Pagesmith.Node

/-- The nodes in the slots of a node, in the order of its properties. -/
def slots (n : Node) : List Node :=
  n.layer.props.flatMap fun e => e.2.slotNodes

/-- The item of a list is a node in a slot. -/
def isSlotItem : PropOf Node → Bool
  | .node _ => true
  | _ => false

mutual

/-- The nodes of a tree. -/
def walk : Node → List Node
  | mk ⟨id, component, dependency, props, schemaName, children, styles, cssClass⟩ =>
    mk ⟨id, component, dependency, props, schemaName, children, styles, cssClass⟩ ::
      ((match children with
        | none => []
        | some cs => walkAll cs) ++ walkProps props)

/-- The nodes of several trees. -/
def walkAll : List Node → List Node
  | [] => []
  | n :: r => walk n ++ walkAll r

/-- The nodes of the trees in slots. -/
def walkProps : List (String × PropOf Node) → List Node
  | [] => []
  | (_, p) :: r => walkProp p ++ walkProps r

/-- The nodes of the trees that a property carries. -/
def walkProp : PropOf Node → List Node
  | .node n => walk n
  | .many items => if items.all isSlotItem then walkItems items else []
  | _ => []

/-- The nodes of the trees in a list of property values. -/
def walkItems : List (PropOf Node) → List Node
  | [] => []
  | .node n :: r => walk n ++ walkItems r
  | _ :: r => walkItems r

end

/-- The last node of a tree with an identifier. -/
def find? (n : Node) (id : String) : Option Node :=
  (n.walk.filter fun m => m.layer.id == id).getLast?

end Pagesmith.Node
