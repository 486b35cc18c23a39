import Pagesmith.Page.Walk

/-!
Sheets: the nodes of a page tree in a row, in the order of a walk, where a node names the nodes
below it by their numbers. A sheet can be changed at any node, also at one that no other node names
any more, and grown into a tree again.
-/

namespace Pagesmith

/-- A node below another one: a number in the sheet, or a tree that is no part of the walk. -/
inductive Ref where
  | at (index : Nat)
  | kept (n : Node)

/-- The nodes of a tree in a row. -/
abbrev Sheet := List (NodeOf Ref)

namespace PropOf

variable {ν μ : Type}

mutual

/-- A property value with its nodes replaced. -/
def map (f : ν → μ) : PropOf ν → PropOf μ
  | literal v => literal v
  | reference name => reference name
  | expression t => expression t
  | function t => function t
  | action a => action a
  | node n => node (f n)
  | many items => many (mapAll f items)
  | raw v => raw v

/-- Property values with their nodes replaced. -/
def mapAll (f : ν → μ) : List (PropOf ν) → List (PropOf μ)
  | [] => []
  | p :: r => map f p :: mapAll f r

end

end PropOf

/-- A node with the nodes below it replaced. -/
def NodeOf.map {ν μ : Type} (f : ν → μ) (n : NodeOf ν) : NodeOf μ :=
  { id := n.id, component := n.component, dependency := n.dependency
    props := n.props.map fun e => (e.1, e.2.map f)
    schemaName := n.schemaName, children := n.children.map (·.map f)
    styles := n.styles, cssClass := n.cssClass }

namespace Sheet

mutual

/-- The sheet of a tree, numbered from `start` on. -/
def ofNode (start : Nat) : Node → Sheet
  | .mk ⟨id, component, dependency, props, schemaName, children, styles, cssClass⟩ =>
    let below : Option (List Ref) × Sheet := match children with
      | none => (none, [])
      | some cs => let (refs, s) := ofNodes (start + 1) cs; (some refs, s)
    let inSlots := ofProps (start + 1 + below.2.length) props
    ⟨id, component, dependency, inSlots.1, schemaName, below.1, styles, cssClass⟩ ::
      (below.2 ++ inSlots.2)

/-- The numbers of several trees, and their sheets one after the other. -/
def ofNodes (start : Nat) : List Node → List Ref × Sheet
  | [] => ([], [])
  | n :: r =>
    let first := ofNode start n
    let rest := ofNodes (start + first.length) r
    (.at start :: rest.1, first ++ rest.2)

/-- Properties with numbers for the nodes in slots, and the sheets of these. -/
def ofProps (start : Nat) : List (String × PropOf Node) → List (String × PropOf Ref) × Sheet
  | [] => ([], [])
  | (k, p) :: r =>
    let first := ofProp start p
    let rest := ofProps (start + first.2.length) r
    ((k, first.1) :: rest.1, first.2 ++ rest.2)

/-- A property value with numbers for the nodes in it, and the sheets of these. -/
def ofProp (start : Nat) : PropOf Node → PropOf Ref × Sheet
  | .node n => (.node (.at start), ofNode start n)
  | .many items =>
    if items.all Node.isSlotItem then
      let inside := ofItems start items
      (.many inside.1, inside.2)
    else (.many (PropOf.mapAll .kept items), [])
  | .literal v => (.literal v, [])
  | .reference name => (.reference name, [])
  | .expression t => (.expression t, [])
  | .function t => (.function t, [])
  | .action a => (.action a, [])
  | .raw v => (.raw v, [])

/-- The nodes of a slot as numbers, and their sheets. -/
def ofItems (start : Nat) : List (PropOf Node) → List (PropOf Ref) × Sheet
  | [] => ([], [])
  | .node n :: r =>
    let first := ofNode start n
    let rest := ofItems (start + first.length) r
    (.node (.at start) :: rest.1, first ++ rest.2)
  | _ :: r => ofItems start r

end

/-- The tree a reference stands for, from the trees of the numbers after `index`. -/
def resolve (index : Nat) (later : List Node) : Ref → Node
  | .kept n => n
  | .at i => (later[i - index - 1]?).getD .blank

/-- The trees of the nodes of a sheet, numbered from `index` on. Nodes name later nodes only. -/
def grow (index : Nat) : Sheet → List Node
  | [] => []
  | n :: r =>
    let later := grow (index + 1) r
    .mk (n.map (resolve index later)) :: later

/-- The number of the last node with an identifier. -/
def lastIndex? (id : String) (s : Sheet) : Option Nat :=
  ((s.zipIdx.filter fun e => e.1.id == id).getLast?).map (·.2)

/-- The properties of a node. -/
def props (s : Sheet) (index : Nat) : List (String × PropOf Ref) :=
  ((s[index]?).map (·.props)).getD []

/-- Give a property of a node a value. -/
def setProp (index : Nat) (key : String) (p : PropOf Ref) (s : Sheet) : Sheet :=
  s.modify index fun n => { n with props := Table.insert key p n.props }

end Sheet

end Pagesmith
