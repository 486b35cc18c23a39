import Pagesmith.Module.Basic
import Pagesmith.Page.Walk

/-!
Styles of a page: every node with styles gets a class of its own, and the module imports the style
sheet that defines them.
-/

namespace Pagesmith.Component

/-- The nodes of a tree that have styles, with them. -/
def styledNodes (root : Node) : List (String × List (String × Value)) :=
  root.walk.filterMap fun n => match n.layer.styles with
    | some (s :: ss) => some (n.layer.id, s :: ss)
    | _ => none

/-- The path by which a module imports its style sheet. -/
def stylesheetPath (moduleName : String) : String :=
  "./" ++ moduleName ++ ".module.scss"

/-- Styles have been taken out of a page. -/
def stylesNotice (count : Nat) (fileName : String) : Notice :=
  .plain "pagegen.codegen.plugins.css" .debug
    ("Extracted " ++ toString count ++ " style rule(s) from page " ++ fileName)

/-- A module with the style classes of a page. -/
def addStyles (root : Node) (m : Module) : Module :=
  let styled := styledNodes root
  let m := styled.foldl (fun m s => m.addClass (Text.className s.1) s.2 (some s.1)) m
  if styled.isEmpty then m else { m with stylesheet := some (stylesheetPath m.name) }

def writeStyles (p : Page) : Build Unit := do
  modify (addStyles p.root)
  let count := (styledNodes p.root).length
  if count != 0 then Build.note (stylesNotice count p.fileName)

end Pagesmith.Component
