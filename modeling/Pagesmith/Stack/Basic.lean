import Pagesmith.Component.Element
import Pagesmith.Component.Styles
import Pagesmith.Delivery.Publish
import Pagesmith.Scaffold.Step

/-!
Stacks: what a project is generated for. A stack says which files every project starts with, what
is written for a page, which steps make the scaffold, how files are finished, and where they go.
-/

namespace Pagesmith

inductive PagePart where
  | styles
  /-- The markup, with the columns that a line may take. -/
  | markup (width : Nat)
deriving DecidableEq

namespace PagePart

def name : PagePart → String
  | styles => "react-css-module"
  | markup _ => "react-jsx"

/-- The columns of a part that has any. -/
def width? : PagePart → Option Nat
  | styles => none
  | markup w => some w

def write (c : Catalogue) (handlers : Handlers) (p : Page) : PagePart → Build Unit
  | styles => Component.writeStyles p
  | markup w => Component.writeMarkup ⟨c, handlers, w⟩ p

/-- Write parts of a page, one after the other. -/
def writeAll (c : Catalogue) (handlers : Handlers) (p : Page) :
    List PagePart → Build Unit
  | [] => pure ()
  | part :: r => do
    part.write c handlers p
    writeAll c handlers p r

end PagePart

/-- The files that every project of a stack starts with. -/
structure Skeleton where
  name : String
  files : (projectName : String) → Except Fault (List OutputFile)

/-- What a project is generated for. -/
structure Stack where
  name : String
  description : String
  skeleton : Option Skeleton
  parts : List PagePart
  steps : List Scaffold.Step
  finishers : List Finisher
  target : Delivery.Target
  /-- Pages are written at all. -/
  hasPages : Bool

/-- Stacks by name. -/
abbrev Stacks := List (String × Stack)

namespace Stacks

/-- Register a stack, in place of one of the same name. -/
def register (s : Stack) (known : Stacks) : Job Stacks := do
  if Table.has s.name known then
    Job.note (.plain "pagegen.solutions.base" .debug ("Replacing registered solution " ++ s.name))
  pure (Table.insert s.name s known)

def find (known : Stacks) (name : String) : Except Fault Stack :=
  match known.lookup name with
  | some s => .ok s
  | none => .error (.unknownStack name (known.map (·.1)))

end Stacks

end Pagesmith
