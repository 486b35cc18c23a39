import Pagesmith.Export
import Pagesmith.Proofs.Scaffold.Step

/-!
Where the files of a project are. The files of a page have a folder to themselves, named by the page's
component, so pages with different components have no path in common, and none with the scaffold; and
the router imports each page from where its module is.
-/

namespace Pagesmith.Export
open Text

/-- Where the module of a page is. -/
def modulePath (p : Page) : String :=
  Route.directory p.fileName ++ "/" ++ Route.component p.fileName ++ ".tsx"

/-- Where the style sheet of a page is, if it has one. -/
def sheetPath (p : Page) : String :=
  Route.directory p.fileName ++ "/" ++ Route.component p.fileName ++ ".module.scss"

/-- The paths of a page. -/
def pagePaths (p : Page) : List String := [modulePath p, sheetPath p]

theorem slash_component (fileName : String) : '/' ∉ (Route.component fileName).toList := fun mem =>
  absurd (pascalCase_isAlphanum fileName '/' mem) (by decide)

/-- A component name starts with a letter, whatever stands behind it. -/
theorem component_append_ne (fileName ending : String) {s : String}
    (other : (s.toList.head?.all fun c => !isNameStart c) = true) :
    Route.component fileName ++ ending ≠ s := by
  obtain ⟨c, r, text, start, -⟩ := isName_pascalCase fileName
  rintro rfl
  simp [Route.component, text, start] at other

theorem isSegment_component (fileName ending : String) :
    (Route.component fileName ++ ending != "" && Route.component fileName ++ ending != ".") = true := by
  rw [Bool.and_eq_true, bne_iff_ne, bne_iff_ne]
  exact ⟨component_append_ne _ _ (by decide), component_append_ne _ _ (by decide)⟩

/-- The segments of a path below the folder of a page, which is seen from `root`. -/
theorem segments_below {root : String} (whole : '/' ∉ root.toList)
    (counts : (root != "" && root != ".") = true) (p : Page) {ending : String}
    (free : '/' ∉ ending.toList) :
    Delivery.segments (root ++ "/pages/" ++ Route.component p.fileName ++ "/" ++
      Route.component p.fileName ++ ending) =
      [root, "pages", Route.component p.fileName, Route.component p.fileName ++ ending] := by
  have component := slash_component p.fileName
  have text : (root ++ "/pages/" ++ Route.component p.fileName ++ "/" ++
      Route.component p.fileName ++ ending).toList =
        root.toList ++ '/' :: ("pages".toList ++ '/' :: ((Route.component p.fileName).toList ++ '/' ::
          (Route.component p.fileName ++ ending).toList)) := by
    simp
  have folder := isSegment_component p.fileName ""
  have file := isSegment_component p.fileName ending
  rw [String.append_empty] at folder
  rw [Delivery.segments, text, pieces_append, pieces_append, pieces_append, pieces_whole whole,
    pieces_whole (by decide), pieces_whole component, pieces_whole (by simp [component, free])]
  simp only [List.cons_append, List.nil_append, List.map_cons, List.map_nil, String.ofList_toList,
    List.filter_cons, counts, folder, file, if_true]
  rfl

theorem segments_pagePath (p : Page) {ending : String} (free : '/' ∉ ending.toList) :
    Delivery.segments (Route.directory p.fileName ++ "/" ++ Route.component p.fileName ++ ending) =
      ["src", "pages", Route.component p.fileName, Route.component p.fileName ++ ending] :=
  segments_below (by decide : '/' ∉ "src".toList) rfl p free

theorem segments_routeSource (p : Page) : Delivery.segments (Scaffold.routeSource p) =
    ["..", "pages", Route.component p.fileName, Route.component p.fileName] := by
  have segments := segments_below (by decide : '/' ∉ "..".toList) rfl p
    (by decide : '/' ∉ "".toList)
  rwa [String.append_empty, String.append_empty] at segments

section Distinct

/-- Where the scaffold has files before and after the pages. -/
def scaffoldPaths (phase : String) : List String :=
  (Scaffold.Step.ofPhase phase Scaffold.Step.all).flatMap Scaffold.Step.places

theorem mem_pagePaths {p : Page} {path : String} (mem : path ∈ pagePaths p) :
    (Delivery.segments path)[1]? = some "pages" ∧
      (Delivery.segments path)[2]? = some (Route.component p.fileName) := by
  simp only [pagePaths, List.mem_cons, List.not_mem_nil, or_false] at mem
  obtain rfl | rfl := mem
  · rw [modulePath, segments_pagePath p (by decide)]
    exact ⟨rfl, rfl⟩
  · rw [sheetPath, segments_pagePath p (by decide)]
    exact ⟨rfl, rfl⟩

theorem nodup_pagePaths (p : Page) : (pagePaths p).Nodup := by
  have differ : modulePath p ≠ sheetPath p := by
    intro same
    have ends := congrArg String.toList same
    simp [modulePath, sheetPath] at ends
  simpa [pagePaths] using differ

/-- Pages have the folder `pages` below `src` to themselves. -/
theorem pagePaths_apart {p : Page} {path : String} (mem : path ∈ pagePaths p) :
    path ∉ scaffoldPaths Scaffold.Step.early ++ scaffoldPaths Scaffold.Step.late := by
  have elsewhere : ∀ path ∈ scaffoldPaths Scaffold.Step.early ++ scaffoldPaths Scaffold.Step.late,
      (Delivery.segments path)[1]? ≠ some "pages" := by
    decide
  exact fun there => elsewhere path there (mem_pagePaths mem).1

variable {ps : List Page}

theorem nodup_allPagePaths (components : (ps.map fun p => Route.component p.fileName).Nodup) :
    (ps.flatMap pagePaths).Nodup := by
  refine List.nodup_flatMap.2 ⟨fun p _ => nodup_pagePaths p, ?_⟩
  refine (List.pairwise_map.1 components).imp fun differ path mem mem' => differ ?_
  exact Option.some.inj ((mem_pagePaths mem).2.symm.trans (mem_pagePaths mem').2)

/-- No path is used twice for the files of a project. -/
theorem nodup_paths (components : (ps.map fun p => Route.component p.fileName).Nodup) :
    (scaffoldPaths Scaffold.Step.early ++ ps.flatMap pagePaths ++
      scaffoldPaths Scaffold.Step.late).Nodup := by
  have scaffold : (scaffoldPaths Scaffold.Step.early ++ scaffoldPaths Scaffold.Step.late).Nodup := by
    decide
  have apart {path : String} (mem : path ∈ ps.flatMap pagePaths) :
      path ∉ scaffoldPaths Scaffold.Step.early ++ scaffoldPaths Scaffold.Step.late := by
    obtain ⟨p, -, own⟩ := List.mem_flatMap.1 mem
    exact pagePaths_apart own
  have order : (scaffoldPaths Scaffold.Step.early ++ ps.flatMap pagePaths ++
      scaffoldPaths Scaffold.Step.late).Perm (ps.flatMap pagePaths ++
        (scaffoldPaths Scaffold.Step.early ++ scaffoldPaths Scaffold.Step.late)) := by
    rw [← List.append_assoc]
    exact List.perm_append_comm.append_right _
  rw [order.nodup_iff]
  exact (nodup_allPagePaths components).append scaffold fun path mem there => apart mem there

end Distinct

section Imports

/-- The segments of a path seen from a folder; two dots lead upwards. -/
def seenFrom : (folder path : List String) → List String
  | folder, [] => folder
  | folder, s :: r => seenFrom (if s == ".." then folder.dropLast else folder ++ [s]) r

/-- The path that a module imports from, given where it is itself. -/
def importedPath (importer source : String) : String :=
  Delivery.joinSegments (seenFrom (Delivery.segments importer).dropLast (Delivery.segments source))

/-- The router imports a page from where its module is. -/
theorem importedPath_page (p : Page) :
    importedPath "src/router/index.tsx" (Scaffold.routeSource p) ++ ".tsx" = modulePath p := by
  have importer : Delivery.segments "src/router/index.tsx" = ["src", "router", "index.tsx"] := by
    decide
  -- A component name is a name, so it does not lead upwards as two dots do.
  have down : Route.component p.fileName ≠ ".." := by
    have other := component_append_ne p.fileName "" (s := "..") (by decide)
    rwa [String.append_empty] at other
  rw [importedPath, segments_routeSource, importer, ← String.toList_inj]
  simp [seenFrom, down, Delivery.joinSegments, String.intercalate_cons_cons, modulePath,
    Route.directory]

end Imports

end Pagesmith.Export
