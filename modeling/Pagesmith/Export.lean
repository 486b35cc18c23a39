import Pagesmith.Lifting.Basic
import Pagesmith.Module.Text
import Pagesmith.Reading.Page
import Pagesmith.Stack.Default

/-!
The export of a project: the schema is read, states are lifted, the files around the pages and the
pages are generated, finished and delivered. An export has an outcome in every case; a failure at
any stage is an outcome with a message and without files.
-/

namespace Pagesmith.Export

/-- The stack asked for: one at hand, or a name, which may be a value of any type. -/
inductive Wanted where
  | stack (s : Stack)
  | named (v : Value)

structure Order where
  catalogue : Catalogue
  known : Stacks
  wanted : Wanted
  /-- Where the files go; `null` leaves it to the stack. -/
  target : Value
  projectName : String
  outDir : String

/-- What comes out of an export. -/
structure Outcome where
  isDone : Bool
  files : List OutputFile
  message : String
  parcel : Option Delivery.Parcel

/-- The end of a stage. -/
def stageNotice (stage : String) (level : Level) (figures : List (String × Value)) : Notice :=
  { Notice.plain "pagegen.pipeline" level ("Pipeline stage " ++ stage) with
    event := some ⟨stage, ("stage", .str stage) :: figures⟩ }

mutual

/-- Why a value cannot be a key, if so. -/
def keyFault? : Value → Option String
  | .list _ => some "list"
  | .dict _ => some "dict"
  | .node _ => some "SchemaNode"
  | .tuple xs => keyFaultOf? xs
  | _ => none

/-- Why values cannot be keys, if so. -/
def keyFaultOf? : List Value → Option String
  | [] => none
  | x :: r => match keyFault? x with
    | some t => some t
    | none => keyFaultOf? r

end

/-- The stack that is wanted. -/
def stack (o : Order) : Except Fault Stack :=
  match o.wanted with
  | .stack s => .ok s
  | .named (.str name) => o.known.find name
  | .named v => match keyFault? v with
    | some t => .error (.notKey t)
    | none => do throw (.unknownStack (← v.text?) (o.known.map (·.1)))

def target (o : Order) (s : Stack) : Except Fault Delivery.Target :=
  let unknown : Except Fault Delivery.Target := do
    throw (.unknownTarget (← o.target.shown?) Delivery.Target.names)
  match o.target with
  | .null => .ok s.target
  | .str name => match Delivery.Target.ofName? o.outDir name with
    | some t => .ok t
    | none => unknown
  | _ => unknown

/-- The files of a page: its module, and its style sheet if it has styles. -/
def pageFiles (c : Catalogue) (s : Stack) (p : Page) : Job (List OutputFile) := do
  let name := Route.component p.fileName
  let (outcome, m) ← Build.runOn (Module.new name)
    (PagePart.writeAll c Handlers.default p s.parts)
  Job.ofExcept outcome
  let path := Route.directory p.fileName ++ "/" ++ name
  let module := OutputFile.ofPath (path ++ ".tsx") (m.text (some name)) .tsx
  if m.classes.isEmpty then pure [module]
  else return [module, .ofPath (path ++ ".module.scss") (← Job.ofExcept m.stylesheetText?) .scss]

def stepNotice (step : Scaffold.Step) : Notice :=
  .plain "pagegen.exporter" .debug ("Running project plugin " ++ step.name)

/-- Run steps, each after a notice. -/
def runSteps : List Scaffold.Step → Bundle → Job Bundle
  | [], b => pure b
  | s :: r, b => do
    Job.note (stepNotice s)
    runSteps r (← s.run b)

/-- A notice that a page has been generated. -/
def pageNotice (p : Page) : Notice :=
  .plain "pagegen.exporter" .debug ("Generated page " ++ p.fileName)

/-- Add the files of pages, each with a notice. -/
def addPages (c : Catalogue) (s : Stack) : List Page → Bundle → Job Bundle
  | [], b => pure b
  | p :: r, b => do
    let b ← b.addAll (← pageFiles c s p)
    Job.note (pageNotice p)
    addPages c s r b

def skeletonFiles (s : Stack) (projectName : String) : Except Fault (List OutputFile) :=
  match s.skeleton with
  | some k => k.files projectName
  | none => .ok []

/-- The finished files of a project. -/
def bundle (o : Order) (s : Stack) (schema : Value) : Job Bundle := do
  let project ← Reading.project o.catalogue schema
  Job.note (stageNotice "parse" .info
    [("solution", .str s.name), ("pages", .int project.pages.length)])
  let project ← Lifting.project o.catalogue project
  Job.note (stageNotice "preprocess" .debug [])
  let b := Bundle.ofProject project o.projectName
  let b ← b.addAll (← Job.ofExcept (skeletonFiles s o.projectName))
  let b ← runSteps (Scaffold.Step.ofPhase Scaffold.Step.early s.steps) b
  let pages := if s.hasPages then project.pages else []
  let b ← addPages o.catalogue s pages b
  Job.note (stageNotice "pages" .info [("count", .int pages.length)])
  let b ← runSteps (Scaffold.Step.ofPhase Scaffold.Step.late s.steps) b
  b.finish s.finishers

variable {l : Delivery.Limits}

/-- Generate and deliver a project; relative folders are seen from `base`. -/
def deliver (base : List String) (o : Order) (schema : Value) : Delivery.Errand l Outcome := do
  let s ← Delivery.Errand.ofJob (Job.ofExcept (stack o))
  let t ← Delivery.Errand.ofJob (Job.ofExcept (target o s))
  let b ← Delivery.Errand.ofJob (bundle o s schema)
  let files := b.output
  let parcel ← Delivery.deliver base t o.projectName files
  Delivery.Errand.note (stageNotice "publish" .info
    [("publisher", .str t.name), ("files", .int files.length)])
  pure ⟨true, files, "Generated " ++ toString files.length ++ " files with " ++ s.name, some parcel⟩

def failureNotice (f : Fault) : Notice :=
  if f.isForeseen then
    .about .pipeline "pagegen.exporter" .error ("Export failed: " ++ f.report.line)
  else { Notice.about .pipeline "pagegen.exporter" .error "Export failed" with traced := true }

def failure (f : Fault) : Outcome :=
  ⟨false, [], if f.isForeseen then f.report.line else "Export failed: " ++ f.message, none⟩

/-- Export a project. -/
def run (base : List String) (o : Order) (schema : Value) : Delivery.Errand l Outcome := do
  match ← (deliver base o schema).settle with
  | .ok outcome => pure outcome
  | .error f => do
    Delivery.Errand.note (failureNotice f)
    pure (failure f)

end Pagesmith.Export
