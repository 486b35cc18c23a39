import Pagesmith.Text.Name

/-!
Where the pages of a project are: their component names, the folders of their modules, and the
paths under which they are shown.
-/

namespace Pagesmith.Route

def component (fileName : String) : String :=
  Text.pascalCase fileName

/-- The folder of a page's module. -/
def directory (fileName : String) : String :=
  "src/pages/" ++ component fileName

/-- The path under which a page is shown; the index is at the root. -/
def path (fileName : String) : String :=
  if fileName == "index" then "/" else "/" ++ fileName

end Pagesmith.Route
