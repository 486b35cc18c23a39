import Pagesmith.Job
import Pagesmith.Text.Part

/-!
Dependencies: what a generated module has to import for a component. They are gathered while a page is read.
-/

namespace Pagesmith

/-- An import source, and what is taken from it: a named export, or the default one. -/
structure Dependency where
  source : String
  exportName : Option String
  subName : Option String
  destructured : Bool
  version : Option String
deriving DecidableEq

namespace Dependency

/-- No import at all. -/
def none : Dependency := ⟨"", .none, .none, false, .none⟩

/-- What tells dependencies of a page apart. -/
def key (d : Dependency) : String × Option String := (d.source, d.exportName)

/-- A source inside the project, relative or by the alias of the source folder. -/
def isLocalSource (source : String) : Bool :=
  Text.hasStart "." source || Text.hasStart "@/" source

/-- The source is a package to install. -/
def isPackage (d : Dependency) : Bool :=
  d.source != "" && !isLocalSource d.source

end Dependency

namespace Reading

/-- Reading with the dependencies of the page gathered so far. -/
abbrev Gather (α : Type) := StateT (List Dependency) Job α

/-- Add a dependency, unless there is one like it already. -/
def require (d : Dependency) : Gather Unit :=
  modify fun found =>
    if d.source == "" || found.any (·.key == d.key) then found else found ++ [d]

end Reading

/-- A text that is there and not empty. -/
def givenText (s : Option String) : Option String :=
  s.filter (· != "")

end Pagesmith
