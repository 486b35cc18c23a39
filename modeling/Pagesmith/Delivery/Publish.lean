import Pagesmith.Delivery.Errand
import Pagesmith.Delivery.Zip

/-!
Delivery of the finished files: as they are, as an archive, or as a tree of folders on the disk.
-/

namespace Pagesmith.Delivery

/-- Where files go. -/
inductive Target where
  | memory
  | archive
  /-- Into a folder of the project's name in this folder. -/
  | folder (path : String)
deriving DecidableEq

/-- What has been delivered. -/
inductive Parcel where
  | memory
  | archive (items : List Item)
  | folder (path : List String)

namespace Target

def name : Target → String
  | memory => "memory"
  | archive => "zip"
  | folder _ => "disk"

/-- The names of all targets. -/
def names : List String := ["memory", "zip", "disk"]

/-- The target of a name. Folders are made in `out`. -/
def ofName? (out name : String) : Option Target :=
  if name == "memory" then some memory
  else if name == "zip" then some archive
  else if name == "disk" then some (folder out)
  else none

end Target

variable {l : Limits}

/-- Write a file into the folder of a project. -/
def writeFile (root : List String) (f : OutputFile) : Errand l Unit := do
  let cause := fun e : DiskFault => Fault.unwritable (pathText root) e.message
  let parts ← Errand.ofJob (Job.ofExcept (checkedPath f.path))
  let path := root ++ parts.map Text.Loose.text
  Errand.makeFolders cause path.dropLast
  Errand.write cause path (Text.octets f.content)

/-- Write files into the folder of a project, one after the other. -/
def writeFiles (root : List String) : List OutputFile → Errand l Unit
  | [] => pure ()
  | f :: r => do
    writeFile root f
    writeFiles root r

/-- The notice before an archive is made. -/
def packingNotice (count : Nat) (name : String) : Notice :=
  .plain "pagegen.publishers.zip_publisher" .info
    ("Packing " ++ toString count ++ " file(s) into " ++ name ++ ".zip")

/-- The notice after an archive has been made. -/
def packedNotice (length : Nat) : Notice :=
  .plain "pagegen.publishers.zip_publisher" .debug
    ("Archive size: " ++ toString length ++ " bytes")

/-- The notice after files have been written. -/
def writtenNotice (count : Nat) (root : List String) : Notice :=
  .plain "pagegen.publishers.disk_publisher" .info
    ("Wrote " ++ toString count ++ " file(s) to " ++ pathText root)

/-- Deliver files under a project name; relative folders are seen from `base`. -/
def deliver (base : List String) (target : Target) (name : String) (files : List OutputFile) :
    Errand l Parcel := do
  match target with
  | .memory => pure .memory
  | .archive => do
    Errand.note (packingNotice files.length name)
    let items ← Errand.ofJob (Job.ofExcept (archive (files.map consigned) name))
    Errand.note (packedNotice (zip items).length)
    pure (.archive items)
  | .folder out => do
    let _ ← Errand.ofJob (Job.ofExcept (checkedName name))
    Errand.checkPath [out, name]
    let root := resolve base out ++ [name]
    writeFiles root files
    Errand.note (writtenNotice files.length root)
    pure (.folder root)

end Pagesmith.Delivery
