import Pagesmith.Job
import Pagesmith.Page.Dependency
import Pagesmith.Script.Statement
import Pagesmith.Table

/-!
The module of a page while it is written: its imports, states, effects, functions, style classes
and markup, and the names that are taken. Every import and every function gets a name of its own;
one import source and export keeps the name it got first.
-/

namespace Pagesmith

/-- What a module takes from one source: the default export and named ones, each under the name
it has in the module. -/
structure ImportEntry where
  main : Option String
  named : List (String × String)
deriving DecidableEq

/-- A module while it is written. States, functions and effects are kept as finished text. -/
structure Module where
  name : String
  imports : List (String × ImportEntry)
  bound : List ((String × String) × String)
  reserved : List String
  states : List (String × String)
  effects : List String
  methods : List (String × String)
  classes : List (String × List (String × Value))
  nodeClasses : List (String × String)
  markup : String
  stylesheet : Option String

/-- Writing a module: what has been written before a failure stays written. -/
abbrev Build (α : Type) := ExceptT Fault (StateT Module (StateM (List Notice))) α

namespace Build

/-- A job as part of writing a module. -/
def ofJob {α : Type} (job : Job α) : Build α :=
  fun m log => let (outcome, log) := job log; ((outcome, m), log)

/-- Give a notice. -/
def note (n : Notice) : Build Unit := ofJob (Job.note n)

/-- Write into a module, as a job with its own outcome. -/
def runOn {α : Type} (m : Module) (build : Build α) : Job (Except Fault α × Module) :=
  fun log => let (result, log) := build m log; (.ok result, log)

end Build

namespace Module

/-- A new module; the names of the view library and its own are taken. -/
def new (name : String) : Module :=
  { name := name, imports := [], bound := []
    reserved := ["React", "useState", "useEffect", "styles", name]
    states := [], effects := [], methods := [], classes := [], nodeClasses := []
    markup := "", stylesheet := none }

/-- Take names. -/
def reserve (names : List String) (m : Module) : Module :=
  { m with reserved := m.reserved ++ names.filter (!m.reserved.contains ·) }

/-- A name with a number behind it. -/
def numbered (base : String) (counter : Nat) : String :=
  base ++ "_" ++ toString counter

/-- The first numbered name from `counter` on that is not taken. -/
def freeNumbered (taken : List String) (base : String) : (more : Nat) → (counter : Nat) → String
  | 0, counter => numbered base counter
  | more + 1, counter =>
    if taken.contains (numbered base counter) then freeNumbered taken base more (counter + 1)
    else numbered base counter

/-- A name like `base` that is not taken. Numbered names differ from each other, so one of the
first `taken.length + 1` is free. -/
def freeName (taken : List String) (base : String) : String :=
  if taken.contains base then freeNumbered taken base taken.length 2 else base

/-- Take and return a name like `base`. -/
def uniqueName (base : String) : Build String := do
  let m ← get
  let name := freeName m.reserved (Text.toIdentifier base)
  set (m.reserve [name])
  pure name

def defaultExport : String := "default"

/-- The name an import would like to have. -/
def desiredName (d : Dependency) (wish : Option String) : String :=
  Text.toIdentifier (((givenText wish).or (givenText d.exportName)).getD "Component")

def exportOf (d : Dependency) (desired : String) : String :=
  if d.destructured then (givenText d.exportName).getD desired else defaultExport

/-- An import has to take another name. -/
def renamedNotice (desired name source : String) : Notice :=
  .plain "pagegen.codegen.module_builder" .debug
    ("Import name " ++ desired ++ " already taken; using " ++ name ++ " for " ++ source)

/-- What is taken from a source, with one more binding. The first default import stays. -/
def ImportEntry.add (entry : ImportEntry) (d : Dependency) (exportName name : String) :
    ImportEntry :=
  if d.destructured then { entry with named := Table.insert exportName name entry.named }
  else { entry with main := entry.main.or (some name) }

/-- Import a dependency; the result is the name it has in the module. -/
def addImport (d : Dependency) (wish : Option String) : Build String := do
  let desired := desiredName d wish
  if d.source == "" then pure desired
  else
    let key := (d.source, exportOf d desired)
    match (← get).bound.lookup key with
    | some name => pure name
    | none => do
      let name ← uniqueName desired
      if name != desired then Build.note (renamedNotice desired name d.source)
      modify fun m =>
        let entry := (m.imports.lookup d.source).getD ⟨none, []⟩
        { m with
          imports := Table.insert d.source (ImportEntry.add entry d key.2 name) m.imports
          bound := m.bound ++ [(key, name)] }
      pure name

/-- Declare a state with its first value, once. -/
def addState (name : String) (initial : Value) : Build Unit := do
  if Table.has name (← get).states then pure ()
  else
    modify (reserve [name, Text.setterName name])
    let literal ← Build.ofJob (Script.literal initial)
    modify fun m => { m with states := m.states ++ [(name, Script.stateHook name literal)] }

/-- Declare a function, once. -/
def addMethod (name code : String) (m : Module) : Module :=
  if Table.has name m.methods then m
  else { m.reserve [name] with methods := m.methods ++ [(name, code)] }

def addEffect (code : String) (m : Module) : Module :=
  if m.effects.contains code then m else { m with effects := m.effects ++ [code] }

/-- Define a style class, for a node if one is given. -/
def addClass (className : String) (styles : List (String × Value)) (nodeId : Option String)
    (m : Module) : Module :=
  { m with
    classes := Table.insert className styles m.classes
    nodeClasses := match nodeId with
      | some id => Table.insert id className m.nodeClasses
      | none => m.nodeClasses }

end Module

end Pagesmith
