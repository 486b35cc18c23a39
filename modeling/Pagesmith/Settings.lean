import Pagesmith.Bundle
import Pagesmith.Delivery.Disk
import Pagesmith.Text.Part
import Pagesmith.Toml.Document
import Pagesmith.Value.Nesting
import Pagesmith.Value.Whole

/-!
Settings of a workspace: what is exported unless a command says otherwise, and the form of files.
They come from a file in the workspace, TOML or JSON by its name; without one everything has its
usual value. Whatever a file holds, there are settings or a fault.
-/

namespace Pagesmith

/-- The settings of a workspace. -/
structure Settings where
  root : List String
  stack : String
  projectName : String
  outDir : String
  target : Option String
  level : Option String
  indent : Nat
  lineWidth : Nat
  blankLines : Nat
  /-- The file that the settings come from. -/
  path : Option (List String)
  raw : List (String × Value)

namespace Settings

/-- The form of files that the settings ask for. -/
def format (s : Settings) : Format.Options :=
  { Format.Options.default with
    indent := s.indent, lineWidth := s.lineWidth, blankLines := s.blankLines }

/-- The names a file with settings may have, in the order in which they are looked for. -/
def fileNames : List String := ["pagegen.toml", ".pagegenrc"]

variable {l : Delivery.Limits}

/-- The first of some paths where something is. -/
def firstThere (d : Delivery.Disk l) :
    List (List String) → Except Delivery.DiskFault (Option (List String))
  | [] => .ok none
  | path :: r => do if ← d.has path then pure (some path) else firstThere d r

/-- The file with the settings: the one asked for, or the first one in the workspace. -/
def locate (d : Delivery.Disk l) (root : List String) (asked : Option (List String)) :
    Except Fault (Option (List String)) :=
  let paths := match asked with
    | some path => [path]
    | none => fileNames.map fun name => root ++ [name]
  match firstThere d paths with
  | .ok found => .ok found
  | .error f => .error (.disk f.message)

/-- The last segment of a path. -/
def fileName (path : List String) : String := path.getLastD ""

/-- The name of a file ends in `.toml` and starts with something else. -/
def isToml (name : String) : Bool := Text.hasEnding ".toml" name && name != ".toml"

def textOf (octets : List UInt8) : Except Fault String :=
  match Text.ofOctets? octets with
  | .ok s => .ok s
  | .error f => .error (.notText f.message)

def ofJsonFile (octets : List UInt8) : Except Fault Value := do
  let s ← textOf octets
  Value.ofDocument? (String.ofList (Text.unifyEnds s.toList))

def ofTomlFile (octets : List UInt8) : Except Fault Value := do
  Toml.ofToml? (← textOf octets)

def readFile (d : Delivery.Disk l) (path : List String) : Except Fault Value :=
  match d.read path with
  | .error f => .error (.disk f.message)
  | .ok octets => if isToml (fileName path) then ofTomlFile octets else ofJsonFile octets

/-- A section of the settings. One that is empty, or not there, says nothing. -/
def section? (data : List (String × Value)) (name : String) :
    Except Fault (List (String × Value)) :=
  match (data.lookup name).getD .null with
  | .dict es => .ok es
  | v => if v.isTruthy then .error (.settingsSection name v.typeName) else .ok []

/-- How many values of a setting may lie one inside the other where the setting is taken as a text. -/
def textRoom : Nat := 991

/-- How many values of a setting may lie one inside the other where a refusal shows the setting. -/
def shownRoom : Nat := 990

/-- A number of the form of files. -/
def number (fields : List (String × Value)) (key : String) (default : Nat) : Except Fault Nat :=
  match fields.lookup key with
  | none => .ok default
  | some v => match v.whole with
    | .ok (.ofNat n) => .ok n
    | .ok n => do
      let _ ← (Value.int n).text?
      throw (.settingsNegative key n)
    | .error .infiniteInteger => .error .infiniteInteger
    | .error _ => do throw (.settingsNumber key (← v.shownWithin? shownRoom))

/-- A text, unless it is empty or not there. -/
def given? (fields : List (String × Value)) (key : String) : Except Fault (Option String) :=
  match fields.lookup key with
  | some v => if v.isTruthy then (v.textWithin? textRoom).map some else .ok none
  | none => .ok none

/-- The folder that archives and projects go into, if nothing else is said. -/
def defaultOutDir : String := "build"

/-- The folder that a path names; a relative one is seen from the workspace. -/
def folderAt (root : List String) (path : Text.Loose) : Except Fault String :=
  if path.head? == some (.char '/') then .ok (Delivery.plainPath path.text)
  else match Delivery.askFault? (root.map .ofString) (Delivery.parts path) with
    | some f => .error f
    | none => .ok (Delivery.pathText (Delivery.resolve root path.text))

/-- The folder that archives and projects go into. -/
def outDirOf (root : List String) (fields : List (String × Value)) : Except Fault String :=
  let v := (fields.lookup "out_dir").getD .null
  match (if v.isTruthy then v else .str defaultOutDir).letters? with
  | some path => folderAt root path
  | none => .error (.notPath v.typeName)

def ofTable (root : List String) (path : Option (List String)) (data : List (String × Value)) :
    Except Fault Settings := do
  let defaults ← section? data "defaults"
  let outDir ← outDirOf root defaults
  let stack ← given? defaults "solution"
  let projectName ← given? defaults "project_name"
  let target ← given? defaults "publish"
  let level ← given? defaults "log_level"
  let form ← section? data "formatting"
  let usual := Format.Options.default
  let indent ← number form "indent_size" usual.indent
  let lineWidth ← number form "max_line_length" usual.lineWidth
  let blankLines ← number form "max_empty_lines" usual.blankLines
  pure {
    root, outDir, target, level, indent, lineWidth, blankLines, path
    stack := stack.getD "react-vite"
    projectName := projectName.getD Bundle.defaultName
    raw := data }

/-- The settings of a workspace. -/
def load (d : Delivery.Disk l) (root : List String) (asked : Option (List String)) :
    Except Fault Settings := do
  match ← locate d root asked, asked with
  | none, some path => .error (.settingsMissing (Delivery.pathText path))
  | none, none => ofTable root none []
  | some path, _ => match readFile d path with
    | .error cause =>
      .error (if cause.isDepth then cause else .settingsUnreadable (fileName path) cause.message)
    | .ok (.dict data) => ofTable root (some path) data
    | .ok _ => .error (.settingsShape (fileName path))

end Settings

end Pagesmith
