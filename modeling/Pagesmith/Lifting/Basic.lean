import Pagesmith.Catalogue.Basic
import Pagesmith.Job
import Pagesmith.Page.Sheet
import Pagesmith.Text.Name

/-!
Lifting of component methods. An action that asks another component of the page to run one of its
methods becomes a call of a page function; the function sets a page state, and the property that
the method drives is bound to that state, as are the events after which the component expects the
state to be false.
-/

namespace Pagesmith.Lifting

/-- A page while its actions are lifted. -/
structure Draft where
  sheet : Sheet
  states : List (String × Value)
  methods : List (String × PageMethod)

/-- Lifting with the page so far. -/
abbrev Lift (α : Type) := StateT Draft Job α

/-- The part of the generator that lifts. -/
def channel : String := "pagegen.preprocessors.state_lifter"

/-- The kind of action that asks a component to run a method. -/
def componentMethod : String := "componentMethod"

/-- The kind of action that calls a function of the page. -/
def callMethod : String := "callMethod"

/-- What stands before the name of a page function in a call. -/
def methodMark : String := "this.methods."

/-- Why an action is left as it is. -/
inductive Unresolved where
  | incomplete
  | noTarget (shownId : String)
  | noMethod (component shownMethod : String)
deriving DecidableEq

/-- The wording. -/
def Unresolved.text : Unresolved → String
  | incomplete => "action lacks componentId or method"
  | noTarget shownId => "no node with id " ++ shownId
  | noMethod component shownMethod =>
    component ++ " has no state-bound method " ++ shownMethod

/-- An action cannot be lifted. -/
def unresolvedNotice (cause : Unresolved) : Notice :=
  .about .propShape channel .warning ("Cannot lift component method: " ++ cause.text)

/-- An action has been lifted. -/
def liftedNotice (id method state : String) : Notice :=
  .plain channel .debug ("Lifted " ++ id ++ "." ++ method ++ " into state " ++ state)

/-- What a resolvable action is about. -/
structure Target where
  index : Nat
  id : String
  material : Material
  method : ComponentMethod
  binding : StateBinding

/-- The settings of an action that become texts are written down; the method only where there is a component. -/
def checkTexts (sheet : Sheet) (a : Action) : Except Fault Unit :=
  let id := a.setting "componentId"
  let method := a.setting "method"
  if id.isNull || !method.isTruthy then .ok ()
  else do
    let text ← id.text?
    if (sheet.lastIndex? text).isSome then discard method.text?

/-- The component and method an action means. -/
def resolve (c : Catalogue) (sheet : Sheet) (a : Action) : Except Unresolved Target :=
  let id := a.setting "componentId"
  let method := a.setting "method"
  if id.isNull || !method.isTruthy then .error .incomplete
  else match sheet.lastIndex? id.text with
    | none => .error (.noTarget id.shown)
    | some index => match sheet[index]? with
      | none => .error (.noTarget id.shown)
      | some node =>
        let missing := Unresolved.noMethod
          (if node.schemaName == "" then node.component else node.schemaName) method.shown
        match c.material? node.schemaName with
        | none => .error missing
        | some material => match material.method? method.text with
          | none => .error missing
          | some m => match m.binding with
            | none => .error missing
            | some binding => .ok ⟨index, node.id, material, m, binding⟩

/-- The component expects the state to be false after an event that this method is bound to. -/
def closingEvent? (prop : String) (m : ComponentMethod) : Option String :=
  match m.binding, m.event with
  | some ⟨p, .bool false⟩, some event => if p == prop && event != "" then some event else none
  | _, _ => none

/-- The page function for a closing event, and what it does. -/
def closingMethod (m : ComponentMethod) (event nodeId state : String) : String × PageMethod :=
  if m.passesValue then
    let base := Text.dropChars 2 event
    (Text.methodName (if base == "" then m.name else base) nodeId, .setter state .null true)
  else (Text.methodName m.name nodeId, .setter state (.bool false) false)

/-- Bind the closing events of a component to functions of their own. -/
def bindClosingEvents (t : Target) (state : String) (d : Draft) : Draft :=
  t.material.methods.foldl (fun d m =>
    match closingEvent? t.binding.prop m with
    | none => d
    | some event =>
      let (name, method) := closingMethod m event t.id state
      { d with
        sheet := d.sheet.setProp t.index event (.reference name)
        methods := Table.insertNew name method d.methods }) d

/-- The page after an action has been lifted, and the function that stands for the method. -/
def apply (t : Target) (d : Draft) : Draft × String :=
  let state := Text.stateName t.binding.prop t.id
  let handler := Text.methodName t.method.name t.id
  let d := { d with
    sheet := d.sheet.setProp t.index t.binding.prop (.reference state)
    states := Table.insertNew state (.bool false) d.states
    methods := Table.insert handler (.setter state t.binding.value false) d.methods }
  (bindClosingEvents t state d, handler)

/-- Lift one action; an action of another kind or without a target stays as it is. -/
def action (c : Catalogue) (a : Action) : Lift Action := do
  if a.kind != componentMethod then pure a
  else
    let d ← get
    Job.ofExcept (checkTexts d.sheet a)
    match resolve c d.sheet a with
    | .error cause => do
      Job.note (unresolvedNotice cause)
      pure a
    | .ok t => do
      let (d, handler) := apply t d
      set d
      Job.note (liftedNotice t.id t.method.name (Text.stateName t.binding.prop t.id))
      pure ⟨callMethod, .dict [("methodName", .str (methodMark ++ handler))]⟩

def ofActions : List Action → PropOf Ref
  | [a] => .action a
  | as => .many (as.map .action)

/-- Lift the actions of the properties that a node had when its turn came. -/
def props (c : Catalogue) (index : Nat) : List (String × PropOf Ref) → Lift Unit
  | [] => pure ()
  | (key, p) :: r => do
    if p.actions.any (·.kind == componentMethod) then
      let lifted ← p.actions.mapM (action c)
      modify fun d => { d with sheet := d.sheet.setProp index key (ofActions lifted) }
    props c index r

/-- Lift the actions of the nodes with these numbers. -/
def nodes (c : Catalogue) : List Nat → Lift Unit
  | [] => pure ()
  | index :: r => do
    props c index ((← get).sheet.props index)
    nodes c r

/-- A page with its component methods lifted. -/
def page (c : Catalogue) (p : Page) : Job Page := do
  let sheet := Sheet.ofNode 0 p.root
  let ((), d) ← (nodes c (List.range sheet.length)).run ⟨sheet, p.states, p.methods⟩
  let root := match Sheet.grow 0 d.sheet with
    | root :: _ => root
    | [] => p.root
  pure { p with root := root, states := d.states, methods := d.methods }

/-- The pages of a project, one after the other. -/
def pages (c : Catalogue) : List Page → Job (List Page)
  | [] => pure []
  | p :: r => do
    let first ← page c p
    let rest ← pages c r
    pure (first :: rest)

/-- The project is about to be lifted. -/
def startNotice : Notice :=
  .plain "pagegen.preprocessors" .debug "Running preprocessor state-lifter"

/-- A project with the component methods of all its pages lifted. -/
def project (c : Catalogue) (p : Project) : Job Project := do
  Job.note startNotice
  return { p with pages := ← pages c p.pages }

end Pagesmith.Lifting
