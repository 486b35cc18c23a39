import Pagesmith.Delivery.Disk
import Pagesmith.Job

/-!
Errands: jobs that also change a disk. What was written and said before a failure stays.
-/

namespace Pagesmith.Delivery

/-- A computation with a disk, notices and a possible failure. -/
abbrev Errand (l : Limits) (α : Type) := ExceptT Fault (StateT (Disk l) (StateM (List Notice))) α

namespace Errand

variable {l : Limits}

/-- The outcome, the disk afterwards, and the notices. -/
def run {α : Type} (e : Errand l α) (d : Disk l) : (Except Fault α × Disk l) × List Notice :=
  e d []

/-- A job that leaves the disk alone. -/
def ofJob {α : Type} (job : Job α) : Errand l α :=
  fun d log => let (outcome, log) := job log; ((outcome, d), log)

/-- Give a notice. -/
def note (n : Notice) : Errand l Unit := ofJob (Job.note n)

def fail {α : Type} (f : Fault) : Errand l α := ofJob (Job.fail f)

/-- The outcome as a value: an errand that goes on after a failure. -/
def settle {α : Type} (e : Errand l α) : Errand l (Except Fault α) :=
  fun d log => let ((outcome, d), log) := e d log; ((.ok outcome, d), log)

/-- The disk as it is. -/
def disk : Errand l (Disk l) := fun d log => ((.ok d, d), log)

/-- Replace the disk. -/
def setDisk (d : Disk l) : Errand l Unit := fun _ log => ((.ok (), d), log)

/-- Names that a disk could have. -/
def checkPath (names : List String) : Errand l Unit :=
  if names.any (·.toList.contains (Char.ofNat 0)) then fail .nulInPath else pure ()

/-- Make a folder and the folders above it; `cause` says what a failure means. -/
def makeFolders (cause : DiskFault → Fault) (path : List String) : Errand l Unit := do
  checkPath path
  if (← disk).lacksTooMany path then fail .foldersTooDeep
  let (d, failure) := (← disk).makeFolders path
  setDisk d
  match failure with
  | some f => fail (cause f)
  | none => pure ()

/-- Write a file; `cause` says what a failure means. -/
def write (cause : DiskFault → Fault) (path : List String) (octets : List UInt8) :
    Errand l Unit := do
  checkPath path
  match (← disk).write path octets with
  | .ok d => setDisk d
  | .error f => fail (cause f)

end Errand

end Pagesmith.Delivery
