import Pagesmith.Fault
import Pagesmith.Text.Part

/-!
Paths of delivered files. A project name is one segment of a path; the path of a file stays inside
the project: it is not absolute, and none of its segments leads upwards. Empty segments and single
dots do not count. Names and paths are checked as loose texts, of which the strings are those without halves.
-/

namespace Pagesmith.Delivery
open Text (Letter Loose)

def segments (path : String) : List String :=
  ((Text.pieces '/' path.toList).map String.ofList).filter fun s => s != "" && s != "."

/-- The path starts at the root. -/
def isAbsolute (path : String) : Bool :=
  Text.hasStart "/" path

def joinSegments (parts : List String) : String :=
  String.intercalate "/" parts

/-- The start of a path that does not count as a segment; two slashes are kept as they are. -/
def rootText (path : String) : String :=
  if Text.hasStart "//" path && !Text.hasStart "///" path then "//"
  else if isAbsolute path then "/"
  else ""

/-- A path without the segments that do not count. -/
def plainPath (path : String) : String :=
  let text := rootText path ++ joinSegments (segments path)
  if text == "" then "." else text

/-- The parts of a loose path that count, which are the segments of a string. -/
def parts (path : Loose) : List Loose :=
  (Text.pieces (.char '/') path).filter fun s => s != [] && s != "."

def joinParts (parts : List Loose) : Loose :=
  [Letter.char '/'].intercalate parts

/-- A project name that is one segment. -/
def checkedName (name : Loose) : Except Fault Loose :=
  if name == [] || name == "." || name == ".." || name.contains (.char '/') || name.contains (.char '\\') then
    .error (.projectName name)
  else .ok name

/-- The parts of a path that stays inside the project. -/
def checkedPath (path : Loose) : Except Fault (List Loose) :=
  let parts := parts path
  if path.head? == some (.char '/') || parts.contains ".." || parts.isEmpty then .error (.outsideProject path)
  else .ok parts

end Pagesmith.Delivery
