import Pagesmith.Format.File
import Pagesmith.Page.Node
import Pagesmith.Table

/-!
Bundles: the files of a project while they are put together. A path holds one file; a second one
takes its place with a notice. Finishers go over the files at the end, each over one file at a
time: what they do to a file hangs on this file alone.
-/

namespace Pagesmith

/-- A project with the files generated for it so far, in the order of their paths' first use. -/
structure Bundle where
  project : Project
  name : String
  files : List (String × OutputFile)
  distinct : (files.map (·.1)).Nodup

/-- A change to finished files. It gives a new file, or nothing if it leaves the file alone. -/
structure Finisher where
  name : String
  apply : OutputFile → Job (Option OutputFile)

/-- Bring files into form. -/
def Finisher.form (o : Format.Options) : Finisher :=
  ⟨"formatter", fun f => some <$> Format.file o f⟩

namespace Bundle

/-- The name of a project that has been given none. -/
def defaultName : String := "pagegen-app"

/-- A bundle without files. -/
def ofProject (project : Project) (name : String) : Bundle := ⟨project, name, [], .nil⟩

/-- Put a file under a path; a path that has one keeps its place. -/
def put (path : String) (f : OutputFile) (b : Bundle) : Bundle :=
  { b with
    files := Table.insert path f b.files
    distinct := Table.nodup_insert b.distinct path f }

/-- Add a file under its path. -/
def add (f : OutputFile) (b : Bundle) : Job Bundle := do
  if Table.has f.path b.files then
    Job.note (.plain "pagegen.codegen.project_builder" .warning
      ("File " ++ f.path ++ " generated twice; keeping the latest version"))
  pure (b.put f.path f)

/-- Add several files, one after the other. -/
def addAll : List OutputFile → Bundle → Job Bundle
  | [], b => pure b
  | f :: r, b => do addAll r (← b.add f)

def require (package version : String) (b : Bundle) : Bundle :=
  { b with project :=
      { b.project with manifest := Table.insert package version b.project.manifest } }

/-- The files in order. -/
def output (b : Bundle) : List OutputFile := b.files.map (·.2)

/-- Finish the file at a path and put the result there. A finisher that fails leaves the file as it is. -/
def finishFile (fin : Finisher) (path : String) (f : OutputFile) (b : Bundle) : Job Bundle := do
  match ← (fin.apply f).settle with
  | .ok (some g) => pure (b.put path g)
  | .ok none => pure b
  | .error cause => do
    Job.note (.about .plugin "pagegen.codegen.project_builder" .warning
      ("Postprocessor " ++ fin.name ++ " failed on " ++ path ++ ": " ++ cause.message))
    pure b

/-- Finish files, one after the other, each under its path. -/
def finishFiles (fin : Finisher) : List (String × OutputFile) → Bundle → Job Bundle
  | [], b => pure b
  | (path, f) :: r, b => do finishFiles fin r (← finishFile fin path f b)

/-- Run finishers over all files, one finisher after the other. -/
def finish : List Finisher → Bundle → Job Bundle
  | [], b => pure b
  | fin :: r, b => do finish r (← finishFiles fin b.files b)

end Bundle

end Pagesmith
