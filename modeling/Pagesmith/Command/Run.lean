import Pagesmith.Command.Listing
import Pagesmith.Command.Reply
import Pagesmith.Command.Request
import Pagesmith.Export
import Pagesmith.Settings

/-!
Carrying out a command line on a disk: the settings of the workspace are read, what is still open
is filled in from them, and the command is run.
-/

namespace Pagesmith.Command

/-- What a command knows of its surroundings: the folder it is given in, and the weight of notices
that the environment asks for. -/
structure Surroundings where
  folder : List String
  level : Option String

variable {l : Delivery.Limits}

/-- The keys under which a schema file may hold its nodes. -/
def schemaKeys : List String := ["schema", "componentsTree"]

/-- The nodes in the value of a schema file: the value itself, or the first list under a key. -/
def nodesOf (path : String) (v : Value) : Except Fault Value :=
  match v with
  | .dict es =>
    let found := schemaKeys.findSome? fun k => match es.lookup k with
      | some (.list xs) => some (Value.list xs)
      | _ => none
    match found with
    | some v => .ok v
    | none => .error (.schemaListMissing path schemaKeys)
  | v => .ok v

def schemaFile (s : Surroundings) (d : Delivery.Disk l) (path : String) : Except Fault Value :=
  let shown := Delivery.plainPath path
  if path.toList.contains (Char.ofNat 0) then
    .error (.schemaSyntax shown Fault.nulInPath.message)
  else match d.readFrom s.folder path with
    | .error cause => .error (.schemaUnreadable shown cause.text)
    | .ok octets => match Settings.ofJsonFile octets with
      | .error f => .error (if f.isDepth then f else .schemaSyntax shown f.message)
      | .ok v => nodesOf shown v

/-- The weight from which notices are shown. -/
def levelOf (s : Surroundings) (r : Request) (t : Settings) : Level :=
  match r.isVerbose, r.level with
  | true, none => .debug
  | _, given => Level.ofSetting ((given.or ((given? s.level).or t.level)).getD "warning")

/-- A failure on one line, followed by its trace if everything is to be shown. -/
def failureRemarks (r : Request) (f : Fault) : List Remark :=
  Reply.errorLine f.line :: (if r.isVerbose then [.trace (some f.message)] else [])

/-- Write an archive into a folder, and say where. -/
def writeArchive (s : Surroundings) (out name : String) (items : List Delivery.Item) :
    Delivery.Errand l String := do
  let cause := fun e : Delivery.DiskFault => Fault.disk e.message
  let file := name ++ ".zip"
  let folder := Delivery.seen s.folder out
  Delivery.Errand.makeFolders cause folder
  Delivery.Errand.write cause (folder ++ [file]) (Delivery.zip items)
  pure (Delivery.plainPath (if Text.hasEnding "/" out then out ++ file else out ++ "/" ++ file))

/-- What is shown after an export. -/
def exportLines (s : Surroundings) (out name : String) (o : Export.Outcome) :
    Delivery.Errand l (List String) := do
  match o.parcel with
  | some (.archive items) => do
    let path ← writeArchive s out name items
    pure [Reply.successLine ("Wrote " ++ path ++ " (" ++ toString o.files.length ++ " files)")]
  | some (.folder root) =>
    pure [Reply.successLine ("Wrote " ++ toString o.files.length ++ " files to " ++
      Delivery.pathText root)]
  | _ => pure (o.files.map (·.path) ++ [Reply.successLine o.message])

/-- The folder of an export: the one asked for, or the one of the settings. -/
def outOf (s : Surroundings) (t : Settings) (e : ExportRequest) : Except Fault String :=
  match e.out with
  | none => .ok t.outDir
  | some out =>
    if out.toList.contains (Char.ofNat 0) then .error .nulInPath
    else .ok (Delivery.pathText (Delivery.resolve s.folder out))

def runExport (s : Surroundings) (r : Request) (t : Settings) (e : ExportRequest) :
    Delivery.Errand l Reply := do
  match schemaFile s (← Delivery.Errand.disk) e.schema with
  | .error f =>
    if f.isForeseen then pure ⟨1, [], failureRemarks r f, none⟩
    else Delivery.Errand.ofJob (Job.fail f)
  | .ok schema => do
    let out ← Delivery.Errand.ofJob (Job.ofExcept (outOf s t e))
    let name := e.projectName.getD t.projectName
    let target : Value := match e.target.or t.target with
      | some target => .str target
      | none => .null
    let order : Export.Order := {
      catalogue := Catalogue.default
      known := Stack.all t.format
      wanted := .named (.str (e.stack.getD t.stack))
      target
      projectName := name
      outDir := out }
    let o ← Export.run s.folder order schema
    if o.isDone then return ⟨0, ← exportLines s out name o, [], none⟩
    else return ⟨1, [], [Reply.errorLine o.message], none⟩

def stackRows (known : Stacks) : List (List String) :=
  known.map fun s => [s.1, s.2.description]

/-- The components, with what they become and where that comes from. -/
def componentRows (c : Catalogue) : List (List String) :=
  c.materials.map fun m =>
    let source := m.2.dependency.source
    [m.1, m.2.component, if source == "" then "-" else source]

def listReply (rows : List (List String)) : Except Fault Reply :=
  (listing rows).map fun lines => ⟨0, lines, [], none⟩

def runTask (s : Surroundings) (r : Request) (t : Settings) : Task → Delivery.Errand l Reply
  | .exportProject e => runExport s r t e
  | .listStacks => Delivery.Errand.ofJob (Job.ofExcept (listReply (stackRows (Stack.all t.format))))
  | .listComponents =>
    Delivery.Errand.ofJob (Job.ofExcept (listReply (componentRows Catalogue.default)))

def settingsOf (s : Surroundings) (d : Delivery.Disk l) (r : Request) : Except Fault Settings :=
  let hasNul := fun path : Option String => (path.getD "").toList.contains (Char.ofNat 0)
  if hasNul r.workspace || hasNul r.settings then .error .nulInPath
  else Settings.load d (Delivery.resolve s.folder (r.workspace.getD "."))
    (r.settings.map (Delivery.resolve s.folder))

/-- A failure that nobody foresaw ends with its trace. -/
def crash (f : Fault) (level : Option Level) (before : List Remark) : Reply :=
  ⟨1, [], before ++ [.trace (some f.message)], level⟩

def carryOut (s : Surroundings) (d : Delivery.Disk l) (r : Request) : Reply × Delivery.Disk l :=
  match settingsOf s d r with
  | .error f =>
    (if f.isForeseen then ⟨1, [], failureRemarks r f, none⟩ else crash f none [], d)
  | .ok t =>
    let level := levelOf s r t
    let ((outcome, d), log) := (runTask s r t r.task).run d
    let notices := remarksOf level log
    match outcome with
    | .ok reply => ({ reply with remarks := notices ++ reply.remarks, level := some level }, d)
    | .error f => (crash f (some level) notices, d)

/-- Carry out a command line. -/
def run (s : Surroundings) (d : Delivery.Disk l) (texts : List String) : Reply × Delivery.Disk l :=
  match request texts with
  | .ok r => carryOut s d r
  | .error (.shown lines code) => (⟨code, lines, [], none⟩, d)
  | .error (.wrong g what) =>
    (⟨2, [], (g.usage.map .line) ++ [.line (g.program ++ ": error: " ++ what)], none⟩, d)

end Pagesmith.Command
