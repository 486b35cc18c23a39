import Pagesmith.Catalogue.Rendering
import Pagesmith.Component.Handler
import Pagesmith.Markup.Layout
import Pagesmith.Page.Walk

/-!
Elements of a page: each node becomes an element under the tag the catalogue gives, its properties
become attributes, and what it imports and its event functions go into the module. Properties are
written in order, then the class name, then the children.
-/

namespace Pagesmith.Component

/-- How pages are written. -/
structure Writer where
  catalogue : Catalogue
  handlers : Handlers
  /-- The columns that a line may take. -/
  width : Nat

/-- The columns that the component takes around its markup. -/
def markupMargin : Nat := 4

def Writer.text (w : Writer) (m : Markup) : String :=
  Markup.render (w.width - markupMargin) 0 m

/-- A node below the one being written: its text for messages, and its element. -/
structure Part where
  shown : Unit → String
  write : Build Markup

/-- The part of the generator that writes elements. -/
def channel : String := "pagegen.codegen.plugins.jsx"

/-- A property cannot be written. -/
def droppedNotice (key id typeName : String) : Notice :=
  .about .propShape channel .warning
    ("Dropping prop " ++ Text.quoted key ++ " of node " ++ id ++ ": unsupported value " ++ typeName)

/-- Children given as a property cannot be written. -/
def ignoredNotice (id typeName : String) : Notice :=
  .about .propShape channel .warning
    ("Ignoring children of node " ++ id ++ ": unsupported value " ++ typeName)

/-- Write parts one after the other. -/
def writeAll : List Part → Build (List Markup)
  | [] => pure []
  | p :: r => do
    let first ← p.write
    let rest ← writeAll r
    pure (first :: rest)

def eventFunction (w : Writer) (key id : String) (actions : List Action) : Build String := do
  let name ← Module.uniqueName (Text.handlerName key id)
  let statements ← w.handlers.statements actions
  modify (Module.addMethod name (Script.arrowFunction name "" statements))
  pure name

/-- The attribute of a property, if it can be written. Several nodes stand in a fragment. -/
def propAttribute (w : Writer) (id key : String) (p : PropOf Part) : Build (Option Attribute) :=
  match p with
  | .literal v => return some (← Build.ofJob (Markup.literalAttribute key v))
  | .reference name => pure (some ⟨key, .code name⟩)
  | .expression t | .function t => pure (some ⟨key, .code (Text.trim t)⟩)
  | .action a => return some ⟨key, .code (← eventFunction w key id [a])⟩
  | .node part => return some ⟨key, .code (w.text (← part.write))⟩
  | .many items => do
    if (PropOf.many items).isActionList then
      return some ⟨key, .code (← eventFunction w key id (PropOf.many items).actions)⟩
    else if (PropOf.many items).isSlotList then
      let elements ← writeAll (PropOf.many items).slotNodes
      return some ⟨key, .code (w.text (.element "" [] elements))⟩
    else
      Build.note (droppedNotice key id "list")
      pure none
  | .raw v => do
    Build.note (droppedNotice key id v.typeName)
    pure none

/-- The attributes of properties, as far as they can be written. -/
def propAttributes (w : Writer) (id : String) : List (String × PropOf Part) → Build (List Attribute)
  | [] => pure []
  | (key, p) :: r => do
    let first ← propAttribute w id key p
    let rest ← propAttributes w id r
    pure (first.toList ++ rest)

/-- The class name of a node without a style class. -/
def plainClassName (p : PropOf Part) : Job (Option Attribute) :=
  match p with
  | .literal v => return some (← Markup.literalAttribute "className" v)
  | .reference name => pure (some ⟨"className", .code name⟩)
  | .expression t | .function t => pure (some ⟨"className", .code (Text.trim t)⟩)
  | _ => pure none

/-- A class of the style sheet alone. -/
def ownClass (cssClass : String) : AttributeBody := .code ("styles." ++ cssClass)

/-- The list of a class name and a class of the style sheet, joined by blanks. -/
def joinedClass (given cssClass : String) : AttributeBody :=
  .code ("[" ++ given ++ ", " ++ ("styles." ++ cssClass) ++ "].join(\" \")")

/-- The class name of a node with a style class, together with the given one. -/
def styledClassName (cssClass : String) (p : Option (PropOf Part)) : Except Fault Attribute :=
  let beside (given : String) : Attribute := ⟨"className", joinedClass given cssClass⟩
  let alone : Attribute := ⟨"className", ownClass cssClass⟩
  match p with
  | some (.literal v) =>
    if v.isBlank then .ok alone else return beside (Script.stringLiteral (← v.text?))
  | some (.reference name) => .ok (beside name)
  | some (.expression t) => .ok (beside (Text.trim t))
  | _ => .ok alone

/-- The class name of a node, from the class of its styles and the property. -/
def classNameOf (layer : NodeOf Part) (p : Option (PropOf Part)) : Build (Option Attribute) := do
  let m ← get
  match (givenText (m.nodeClasses.lookup layer.id)).or (givenText layer.cssClass) with
  | some cssClass => return some (← Build.ofJob (Job.ofExcept (styledClassName cssClass p)))
  | none => match p with
    | some p => Build.ofJob (plainClassName p)
    | none => pure none

/-- The children given by a property. -/
def childrenOf (id : String) (p : PropOf Part) : Build (List Markup) :=
  match p with
  | .literal v => return (← Build.ofJob (Markup.literalChild v)).toList
  | .node part => writeAll [part]
  | .reference name => pure [.code name]
  | .expression t | .function t => pure [.code (Text.trim t)]
  | p => do
    if p.isSlotList then writeAll p.slotNodes
    else
      Build.note (ignoredNotice id p.typeName)
      pure []

def importedTag (tag : String) (d : Dependency) : Build String := do
  if d.source == "" then pure tag
  else
    let (head, rest) := Text.cutAt '.' tag.toList
    let name ← Module.addImport d (some (String.ofList head))
    pure (match rest with
      | some r => name ++ "." ++ String.ofList r
      | none => name)

/-- The state that the rows of a table are loaded into. -/
def rowsState (id : String) : String := Text.toIdentifier ("dataSource_" ++ id)

/-- The rows of a table, loaded into a state of the page. -/
def loadRows (id url : String) : Build String := do
  Module.addState (rowsState id) (.list [])
  modify (Module.addEffect (Script.fetchEffect url (Text.setterName (rowsState id))))
  pure (rowsState id)

/-- A property that is there and not an unclassified `null`. -/
def givenProp {ν : Type} (key : String) (props : List (String × PropOf ν)) : Option (PropOf ν) :=
  match props.lookup key with
  | some (.raw .null) => none
  | p => p

def Writer.rule {ν : Type} (w : Writer) (layer : NodeOf ν) : Rendering :=
  w.catalogue.rendering (if layer.schemaName == "" then layer.component else layer.schemaName)
    (some layer.component)

/-- The address from which the rows of a node are loaded. -/
def rowsAddress {ν : Type} (rule : Rendering) (layer : NodeOf ν) : Option String :=
  if rule.loadsRows then Catalogue.rowsUrl? layer.props else none

/-- The properties that are written for a node, with the state that its rows are loaded into. -/
def writtenProps (rule : Rendering) (layer : NodeOf Part) : Build (List (String × PropOf Part)) :=
  let written := Catalogue.written (fun p => p.shown ()) rule.steps layer.id layer.props
  match rowsAddress rule layer with
  | some url => do
    let state ← loadRows layer.id url
    pure (Table.insert "dataSource" (.reference state) written)
  | none => pure written

/-- The properties that become attributes. -/
def attributeProps {ν : Type} (written : List (String × PropOf ν)) : List (String × PropOf ν) :=
  Table.erase "children" (Table.erase "className" written)

/-- The children of a node: those it lists, or else those its properties give. -/
def elementChildren (layer : NodeOf Part) (written : List (String × PropOf Part)) :
    Build (List Markup) :=
  match layer.children, givenProp "children" written with
  | some (c :: cs), _ => writeAll (c :: cs)
  | _, some p => childrenOf layer.id p
  | _, none => pure []

/-- The element of a node under a tag, with the properties that are written for it. -/
def elementAs (w : Writer) (tag : String) (layer : NodeOf Part) (written : List (String × PropOf Part)) :
    Build Markup := do
  let tag ← importedTag tag layer.dependency
  let plain ← propAttributes w layer.id (attributeProps written)
  let className ← classNameOf layer (givenProp "className" written)
  let children ← elementChildren layer written
  pure (.element tag (plain ++ className.toList) children)

def elementOf (w : Writer) (layer : NodeOf Part) : Build Markup := do
  let tag ← Build.ofJob (Catalogue.tag (w.rule layer).tag layer.props)
  let written ← writtenProps (w.rule layer) layer
  elementAs w tag layer written

mutual

def element (w : Writer) : Node → Build Markup
  | .mk ⟨id, component, dependency, props, schemaName, children, styles, cssClass⟩ =>
    elementOf w ⟨id, component, dependency, partsOfProps w props, schemaName,
      partsOfChildren w children, styles, cssClass⟩

def partsOfChildren (w : Writer) : Option (List Node) → Option (List Part)
  | none => none
  | some ns => some (parts w ns)

def parts (w : Writer) : List Node → List Part
  | [] => []
  | n :: r => ⟨fun _ => n.shown, element w n⟩ :: parts w r

def partsOfProps (w : Writer) : List (String × PropOf Node) → List (String × PropOf Part)
  | [] => []
  | (k, p) :: r => (k, partOfProp w p) :: partsOfProps w r

/-- A property value over parts. -/
def partOfProp (w : Writer) : PropOf Node → PropOf Part
  | .literal v => .literal v
  | .reference name => .reference name
  | .expression t => .expression t
  | .function t => .function t
  | .action a => .action a
  | .node n => .node ⟨fun _ => n.shown, element w n⟩
  | .many items => .many (partsOfItems w items)
  | .raw v => .raw v

/-- Property values over parts. -/
def partsOfItems (w : Writer) : List (PropOf Node) → List (PropOf Part)
  | [] => []
  | p :: r => partOfProp w p :: partsOfItems w r

end

/-- A function of the page. -/
def pageMethod (name : String) (method : PageMethod) : Job String :=
  match method with
  | .function text => pure (Script.sourceFunction name text)
  | .setter state _ true =>
    pure (Script.arrowFunction name "value: boolean" [Text.setterName state ++ "(value);"])
  | .setter state value false =>
    return Script.arrowFunction name "" [Script.setterCall state (← Script.literal value)]

/-- Declare the states of a page. -/
def writeStates : List (String × Value) → Build Unit
  | [] => pure ()
  | (name, initial) :: r => do
    Module.addState name initial
    writeStates r

/-- Declare the functions of a page. -/
def writeMethods : List (String × PageMethod) → Build Unit
  | [] => pure ()
  | (name, method) :: r => do
    let code ← Build.ofJob (pageMethod name method)
    modify (Module.addMethod name code)
    writeMethods r

/-- Write the states and functions of a page, and the element of its root, which is written by `root`. -/
def writePage (w : Writer) (p : Page) (root : Build Markup) : Build Unit := do
  writeStates p.states
  writeMethods p.methods
  let root ← root
  modify fun m => { m with markup := w.text root }

/-- Write the states, functions and markup of a page. -/
def writeMarkup (w : Writer) (p : Page) : Build Unit := writePage w p (element w p.root)

end Pagesmith.Component
