import Pagesmith.Delivery.Path
import Pagesmith.Table
import Pagesmith.Text.Utf8

/-!
A disk as a map from absolute paths to folders and files. An operation walks along the segments of
a path: the first one that is missing, or that is no folder though more segments follow, ends it
with a fault that names the whole path. Two dots lead upwards, but only from a folder that is
there. How long names and paths can be, and how many folders can be made at once, is said by the limits of the disk.
-/

namespace Pagesmith.Delivery
open Text (Letter Loose)

/-- What is at a path. -/
inductive Entry where
  | folder
  | file (octets : List UInt8)
deriving DecidableEq

/-- What a disk takes: the octets in the name of a segment and in the text of a path, and the folders that can be made
at once, one inside the other. Where there is no limit it takes any number. -/
structure Limits where
  name : Option Nat
  path : Option Nat
  folders : Option Nat

namespace Limits

def usual : Limits := ⟨some 255, some 4095, some 975⟩

/-- The disk is a map from paths, and nothing more. -/
def unbounded : Limits := ⟨none, none, none⟩

variable (l : Limits)

/-- The name of a segment is longer than a disk allows. -/
def isTooLong (segment : String) : Bool := l.name.any (· < (Text.octets segment).length)

/-- The text of a path is longer than a disk allows. -/
def isTooLongPath (path : String) : Bool := l.path.any (· < (Text.octets path).length)

end Limits

/-- What is on a disk. The root is always a folder. -/
structure Disk (l : Limits) where
  entries : List (List String × Entry)

variable {l : Limits}

/-- Why an operation on a disk fails. -/
inductive DiskCause where
  | missing | exists | noFolder | folder | nameTooLong
deriving DecidableEq

/-- A failed operation: its cause, and the path it was about. -/
structure DiskFault where
  cause : DiskCause
  path : List String
deriving DecidableEq

def pathText (path : List String) : String := "/" ++ joinSegments path

/-- Why a disk cannot be asked for the segments on a path, one after the other, from the folder `here` on: one of them
has no octets, or it holds the character with number zero. -/
def askFault? (here : List Loose) : List Loose → Option Fault
  | [] => none
  | s :: r =>
    if s == ".." then askFault? here.dropLast r
    else match Loose.nameOctets? (.char '/' :: joinParts (here ++ [s])) with
      | .error cause => some (.unencodable cause)
      | .ok _ => if s.contains (.char (Char.ofNat 0)) then some .nulInPath else askFault? (here ++ [s]) r

namespace DiskCause

def number : DiskCause → Nat
  | missing => 2
  | «exists» => 17
  | noFolder => 20
  | folder => 21
  | nameTooLong => 36

/-- The wording of a cause. -/
def text : DiskCause → String
  | missing => "No such file or directory"
  | «exists» => "File exists"
  | noFolder => "Not a directory"
  | folder => "Is a directory"
  | nameTooLong => "File name too long"

end DiskCause

/-- The wording of a failed operation. -/
def DiskFault.message (f : DiskFault) : String :=
  "[Errno " ++ toString f.cause.number ++ "] " ++ f.cause.text ++ ": " ++
    Text.quoted (pathText f.path)

/-- The path that a text names, seen from a folder. -/
def seen (base : List String) (path : String) : List String :=
  (if isAbsolute path then [] else base) ++ segments path

/-- The place that a path leads to if every folder on its way is there. -/
def place (path : List String) : List String :=
  path.foldl (fun at_ s => if s == ".." then at_.dropLast else at_ ++ [s]) []

/-- The place that a text names, seen from a folder. -/
def resolve (base : List String) (path : String) : List String := place (seen base path)

namespace Disk

/-- What is at a path, without regard to the folders above it. -/
def entry? (d : Disk l) : List String → Option Entry
  | [] => some .folder
  | path => d.entries.lookup path

/-- What is at the end of a path, seen from the folder `here`. -/
def findFrom (d : Disk l) (here : List String) : List String → Except DiskCause Entry
  | [] => .ok .folder
  | s :: r =>
    if s == ".." then findFrom d here.dropLast r
    else if l.isTooLong s then .error .nameTooLong
    else match d.entry? (here ++ [s]) with
      | none => .error .missing
      | some (.file octets) => if r.isEmpty then .ok (.file octets) else .error .noFolder
      | some .folder => findFrom d (here ++ [s]) r

def find (d : Disk l) (path : List String) : Except DiskFault Entry :=
  if l.isTooLongPath (pathText path) then .error ⟨.nameTooLong, path⟩
  else match d.findFrom [] path with
    | .ok e => .ok e
    | .error cause => .error ⟨cause, path⟩

/-- Something is at a path. That a name is too long is no answer to the question. -/
def has (d : Disk l) (path : List String) : Except DiskFault Bool :=
  match d.find path with
  | .ok _ => .ok true
  | .error f => if f.cause == .nameTooLong then .error f else .ok false

def hasFolder (d : Disk l) (path : List String) : Bool :=
  match d.find path with
  | .ok .folder => true
  | _ => false

/-- Put something at a path, without regard to what is there. -/
def put (path : List String) (e : Entry) (d : Disk l) : Disk l := ⟨Table.insert path e d.entries⟩

/-- The octets of a file. -/
def read (d : Disk l) (path : List String) : Except DiskFault (List UInt8) :=
  match d.find path with
  | .ok (.file octets) => .ok octets
  | .ok .folder => .error ⟨.folder, path⟩
  | .error f => .error f

/-- The octets of the file that a text names, seen from the folder `here`. -/
def readFrom (d : Disk l) (here : List String) (path : String) : Except DiskCause (List UInt8) :=
  if l.isTooLongPath (plainPath path) then .error .nameTooLong
  else match d.findFrom (if isAbsolute path then [] else here) (segments path) with
    | .ok (.file octets) => .ok octets
    | .ok .folder => .error .folder
    | .error cause => .error cause

def makeFolder (path : List String) (d : Disk l) : Except DiskFault (Disk l) :=
  match d.find path with
  | .ok _ => .error ⟨.exists, path⟩
  | .error f =>
    if f.cause == .missing && d.hasFolder path.dropLast then .ok (d.put (place path) .folder)
    else .error f

/-- Make the folders on a path that are not there, from the folder `here` on; `before` is the path
up to it. The folders made before a failure stay. -/
def makeMissing (d : Disk l) (here before : List String) : List String → Disk l × Option DiskFault
  | [] => (d, none)
  | s :: r =>
    let path := before ++ [s]
    if s == ".." then makeMissing d here.dropLast path r
    else if l.isTooLong s then (d, some ⟨.nameTooLong, path⟩)
    else match d.entry? (here ++ [s]) with
      | none => makeMissing (d.put (here ++ [s]) .folder) (here ++ [s]) path r
      | some .folder => makeMissing d (here ++ [s]) path r
      | some (.file _) => (d, some ⟨.exists, path⟩)

/-- More folders on a path are not there than can be made at once. -/
def lacksTooMany (path : List String) (d : Disk l) : Bool :=
  l.folders.any fun limit => limit < path.length && match d.makeFolder path with
    | .error f => f.cause == .missing && !d.hasFolder (path.take (path.length - limit))
    | .ok _ => false

/-- Make a folder and the folders above it, as far as they are not there. -/
def makeFolders (path : List String) (d : Disk l) : Disk l × Option DiskFault :=
  match d.makeFolder path with
  | .ok d => (d, none)
  | .error f =>
    if f.cause == .missing then d.makeMissing [] [] path
    else if d.hasFolder path then (d, none)
    else (d, some f)

/-- Write a file into a folder that is there, in place of a file of the name. -/
def write (path : List String) (octets : List UInt8) (d : Disk l) : Except DiskFault (Disk l) :=
  match d.find path with
  | .ok .folder => .error ⟨.folder, path⟩
  | .ok (.file _) => .ok (d.put (place path) (.file octets))
  | .error f =>
    if f.cause == .missing && d.hasFolder path.dropLast then
      .ok (d.put (place path) (.file octets))
    else .error f

/-- The files with their octets. -/
def files (d : Disk l) : List (List String × List UInt8) :=
  d.entries.filterMap fun e => match e.2 with
    | .file octets => some (e.1, octets)
    | .folder => none

/-- A disk with one more file, and the folders above it. -/
def withFile (path : List String) (octets : List UInt8) (d : Disk l) : Disk l :=
  (d.makeFolders path.dropLast).1.put path (.file octets)

end Disk

end Pagesmith.Delivery
