import Pagesmith.File
import Pagesmith.Format.Text
import Pagesmith.Job
import Pagesmith.Text.Copies
import Pagesmith.Value.Copy
import Pagesmith.Value.Nesting

/-!
The form of a generated file, which hangs on its kind: manifests are written anew, sources, markup
and stylesheets get the form of text, and everything else stays as it is. A manifest that cannot
be read stays as it is, too.
-/

namespace Pagesmith.Format

/-- JSON on indented lines, closed by a line feed. -/
def manifestText (indent : Nat) (v : Value) : String :=
  v.indented indent 0 ++ "\n"

/-- A value as a manifest with two spaces for a step, if JSON has a form for it. Numbers that are
not finite are written by name. -/
def manifestOf (v : Value) : Except Fault String :=
  match v.obstacles.filter (· != .notFinite) with
  | [] => .ok (manifestText 2 v)
  | o :: _ => .error o.fault

/-- Whether one step of indentation can be made. -/
def checkStep (o : Options) : Except Fault Unit := Text.checkCopies 1 o.indent

/-- A manifest in its form. A lone text needs no indentation. -/
def manifest (o : Options) (s : String) : Except Fault String :=
  match Value.ofDocument? s with
  | .ok (.str t) => .ok (manifestText o.indent (.str t))
  | .ok v => do
    checkStep o
    pure (manifestText o.indent v)
  | .error cause => .error cause

def supports : FileCategory → Bool
  | .other => false
  | _ => true

/-- The content of a file of a category in its form. -/
def content (o : Options) (category : FileCategory) (s : String) : Except Fault String :=
  match category with
  | .manifest => manifest o s
  | .source | .markup | .stylesheet => do
    checkStep o
    pure (text o s)
  | .other => .ok s

/-- A file with its content in form, or as it is if that cannot be done. -/
def file (o : Options) (f : OutputFile) : Job OutputFile :=
  match content o f.kind.category f.content with
  | .ok s => pure { f with content := s }
  | .error cause => do
    Job.note (.about .plugin "pagegen.postprocessors.formatter" .warning
      ("Could not format " ++ f.path ++ ": " ++ cause.message))
    pure f

end Pagesmith.Format
