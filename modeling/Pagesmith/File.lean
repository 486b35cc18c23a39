import Pagesmith.Fault
import Pagesmith.Text.Part

/-!
Generated files. A file is addressed by its path in the project; its kind says how its text is
brought into form.
-/

namespace Pagesmith

inductive FileKind where
  | tsx | ts | json | scss | css | html | vue | other
deriving DecidableEq

/-- What a file holds, as far as its form is concerned. -/
inductive FileCategory where
  | source | stylesheet | manifest | markup | other
deriving DecidableEq

namespace FileKind

def name : FileKind → String
  | tsx => "tsx"
  | ts => "ts"
  | json => "json"
  | scss => "scss"
  | css => "css"
  | html => "html"
  | vue => "vue"
  | other => "other"

def all : List FileKind := [tsx, ts, json, scss, css, html, vue, other]

def ofName (s : String) : Except Fault FileKind :=
  match all.find? (·.name == s) with
  | some k => .ok k
  | none => .error (.unknownFileType s)

def category : FileKind → FileCategory
  | tsx | ts | vue => .source
  | scss | css => .stylesheet
  | json => .manifest
  | html => .markup
  | other => .other

theorem ofName_name (k : FileKind) : ofName k.name = .ok k := by
  cases k <;> rfl

end FileKind

def FileCategory.name : FileCategory → String
  | source => "source"
  | stylesheet => "stylesheet"
  | manifest => "manifest"
  | markup => "markup"
  | other => "other"

/-- A generated file. -/
structure OutputFile where
  name : String
  path : String
  content : String
  kind : FileKind
deriving DecidableEq

/-- The file at a path; it is called by the last part of the path. -/
def OutputFile.ofPath (path content : String) (kind : FileKind) : OutputFile :=
  ⟨String.ofList ((Text.pieces '/' path.toList).getLastD []), path, content, kind⟩

end Pagesmith
