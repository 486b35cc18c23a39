import Pagesmith.Command.Run
import Std.Time.Zoned

/-!
The command line. A command is carried out on a picture of those parts of the disk that it can
reach; what has changed in the picture is then written to the disk.
-/

namespace Pagesmith.CommandLine

open Delivery Command

/-- What is at a path of the disk. -/
def entryAt? (path : List String) : IO (Option Entry) := do
  let place := (← IO.currentDir) / pathText path
  if ← place.isDir then return some .folder
  if !(← place.pathExists) then return none
  return some (.file (← IO.FS.readBinFile place).toList)

/-- The paths above a path, and the path itself. -/
def wayTo (path : List String) : List (List String) :=
  (List.range path.length).map fun n => path.take (n + 1)

/-- A picture of what is on the way to some paths, and where they lead. -/
def picture (paths : List (List String)) : IO (Disk .usual) := do
  let mut d : Disk .usual := ⟨[]⟩
  for path in (paths.flatMap fun p => (wayTo p).map place).eraseDups do
    if let some e ← entryAt? path then
      d := d.put path e
  return d

/-- The paths that a command line may read: what its texts name, and the settings there. -/
def readPaths (folder : List String) (texts : List String) : List (List String) :=
  let named := texts.flatMap fun t =>
    [t, String.ofList ((t.toList.dropWhile (· != '=')).drop 1)]
  let places := folder :: named.map (seen folder)
  places ++ places.flatMap fun p => Settings.fileNames.map fun name => p ++ [name]

/-- Write what has changed to the disk. -/
def apply (before after : Disk .usual) : IO Unit := do
  for (path, e) in after.entries do
    if before.entries.lookup path != some e then
      match e with
      | .folder => IO.FS.createDirAll (pathText path)
      | .file octets => IO.FS.writeBinFile (pathText path) ⟨octets.toArray⟩

/-- A number with at least some digits. -/
def digits (width n : Nat) : String :=
  let text := toString n
  "".pushn '0' (width - text.length) ++ text

/-- The local time, as it stands in front of a notice. -/
def timeText : IO String := do
  let t ← Std.Time.PlainDateTime.now
  let date := String.intercalate "-"
    [digits 4 t.date.year.toInt.toNat, digits 2 t.date.month.toNat, digits 2 t.date.day.toNat]
  let time := String.intercalate ":"
    [digits 2 t.time.hour.toNat, digits 2 t.time.minute.toNat, digits 2 t.time.second.val.toNat]
  return date ++ " " ++ time ++ "," ++ digits 3 (t.time.nanosecond.toNat / 1000000)

def showRemark (r : Remark) : IO Unit := do
  match r with
  | .line text => IO.eprintln text
  | .notice n => IO.eprintln (noticeLine (← timeText) n)
  | .trace reason => reason.forM IO.eprintln

/-- Carry out a command line. What it writes is known after a first run, on a picture without the
places that are written to. -/
def carryOut (texts : List String) : IO UInt32 := do
  let folder := segments (← IO.currentDir).toString
  let s : Surroundings := ⟨folder, ← IO.getEnv "PAGEGEN_LOG_LEVEL"⟩
  let read := readPaths folder texts
  let rough ← picture read
  let written := (run s rough texts).2.entries.map (·.1)
  let before ← picture (read ++ written)
  let (reply, after) := run s before texts
  apply before after
  reply.lines.forM IO.println
  reply.remarks.forM showRemark
  return UInt32.ofNat reply.code

end Pagesmith.CommandLine

/-- Carry out the command line that the program is given. -/
def main (texts : List String) : IO UInt32 := Pagesmith.CommandLine.carryOut texts
