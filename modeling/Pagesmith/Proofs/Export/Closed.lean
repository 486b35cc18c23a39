import Pagesmith.Proofs.Component.Sources
import Pagesmith.Proofs.Export.Files
import Pagesmith.Proofs.Reading.Below
import Pagesmith.Proofs.Scaffold.Step

/-!
Imports of an exported project. Whatever a page's module or the router imports from is a package that the
project lists, or leads to one of its files; and a module imports its style sheet exactly if that file is
there.
-/

namespace Pagesmith

namespace Reading

theorem materials_supplied : ∀ e ∈ Catalogue.default.materials, (materialDependency e.2).IsSupplied := by
  simp only [Dependency.IsSupplied]
  decide +kernel

/-- The components of the default catalogue import from sources for pages. -/
theorem Provided.supplied {name component : String} {d : Dependency}
    (h : Provided .default name component d) : d.IsSupplied := by
  cases h with
  | unknown => exact .inl rfl
  | known found => exact materials_supplied _ (Table.mem_of_lookup found)
  | icon v =>
    refine .inr ⟨(by decide : Catalogue.iconPackage ∈ pageSources), fun x mem => ?_⟩
    obtain ⟨same, -⟩ := Option.filter_eq_some_iff.1 mem
    exact Option.some.inj same ▸ Catalogue.iconName_isIdentifier v

end Reading

namespace Export
open Scaffold Pagesmith.Module Script

/-- Where a module's import leads to: `@/` is the folder of the sources, and other paths are seen from the
module. -/
def located (importer source : String) : String :=
  if Text.hasStart "@/" source then "src/" ++ Text.dropChars 2 source
  else importedPath importer source

/-- The files that a path without an ending may mean. -/
def completions (path : String) : List String := [path, path ++ ".tsx", path ++ ".ts", path ++ "/index.ts"]

/-- The import of this source finds a package or a file. -/
def Finds (packages paths : List String) (importer source : String) : Prop :=
  source ∈ packages ∨ Dependency.isLocalSource source = true ∧
    ∃ path ∈ completions (located importer source), path ∈ paths

/-- The sources of the style sheets among all sources. -/
def sheetSources (sources : List String) : List String := sources.filter (importGroup · == 2)

variable {form : Format.Options} {b : Bundle} {groups : List (List OutputFile)}

section Router

theorem shownLines_routerEntries (ps : List Page) :
    ((routerEntries ps).flatMap fun e => shownLines e.line) =
      ((routerEntries ps).map Entry.line).map String.toList := by
  rw [List.map_map, List.map_eq_flatMap]
  refine List.flatMap_congr fun e mem => ?_
  have line := isPlainLine_entries ps e mem
  obtain ⟨r, text⟩ := (hasHead_entries ps e mem).cons
  rw [shownLines, Text.pieces_whole line.isOneLine.1]
  refine Format.inked_self (List.forall_mem_singleton.2 ?_)
  rw [line.isTidy.isBlankLine_eq, text]
  rfl

theorem isHeading_router (ps : List Page) : IsHeading (((routerEntries ps).map Entry.line).map String.toList)
    ((routerEntries ps).map (·.1)) := by
  rw [← shownLines_routerEntries]
  exact Entry.isHeading_lines fun e mem => (named_routerEntries ps e mem).listed

theorem importSources_router {ps : List Page} {f : OutputFile} (source : f.kind.category = .source)
    (content : f.content = Scaffold.closedLines (routerLines ps)) (o : Format.Options) :
    importSources (Format.formed o f).content = some ((routerEntries ps).map (·.1)) :=
  (isHeading_router ps).importSources (inked_formed_router source content o) rfl

end Router

/-- The packages of a project. -/
def packageNames : List String := (packageTable Catalogue.default.packages).map (·.1)

theorem mem_packageNames {name : String}
    (h : name ∈ Catalogue.default.packages.map (·.1) ∨ name ∈ corePackages.map (·.1)) :
    name ∈ packageNames := mem_packageTable.2 h

/-- The paths of the files that an export hands over. -/
def outputPaths (b : Bundle) : List String := b.output.map (·.path)

theorem formed_path (o : Format.Options) (f : OutputFile) : (Format.formed o f).path = f.path := by
  rw [Format.formed]
  split <;> rfl

theorem outputPaths_eq (files : b.files = (added b groups).map fun f => (f.path, Format.formed form f)) :
    outputPaths b = (added b groups).map (·.path) := by
  rw [outputPaths, Bundle.output, files, List.map_map, List.map_map]
  exact List.map_congr_left fun f _ => formed_path form f

theorem added_paths (b : Bundle) (groups : List (List OutputFile)) : (added b groups).map (·.path) =
    scaffoldPaths Step.early ++ groups.flatten.map (·.path) ++ scaffoldPaths Step.late := by
  rw [added, List.map_append, List.map_append, paths_stepFiles, paths_stepFiles]

section Sources

theorem scaffold_path (files : b.files = (added b groups).map fun f => (f.path, Format.formed form f))
    {path : String} (there : path ∈ scaffoldPaths Step.early ++ scaffoldPaths Step.late) :
    path ∈ outputPaths b := by
  rw [outputPaths_eq files, added_paths]
  obtain mem | mem := List.mem_append.1 there
  · exact List.mem_append_left _ (List.mem_append_left _ mem)
  · exact List.mem_append_right _ mem

variable {importer : String}

theorem finds_package {source : String}
    (h : source ∈ Catalogue.default.packages.map (·.1) ∨ source ∈ corePackages.map (·.1))
    (paths : List String) : Finds packageNames paths importer source := .inl (mem_packageNames h)

/-- The alias of the folder of sources leads there from every module. -/
theorem located_alias (importer rest : String) : located importer ("@/" ++ rest) = "src/" ++ rest := by
  have two : Text.dropChars 2 ("@/" ++ rest) = rest := Text.dropChars_append "@/" rest
  rw [located, Text.hasStart_append, if_pos rfl, two]

theorem finds_pageSource {paths : List String}
    (scaffold : ∀ path ∈ scaffoldPaths Step.early ++ scaffoldPaths Step.late, path ∈ paths)
    {source : String} (mem : source ∈ pageSources) : Finds packageNames paths importer source := by
  simp only [pageSources, List.mem_cons, List.not_mem_nil, or_false] at mem
  obtain rfl | rfl | rfl | rfl := mem
  · exact finds_package (.inl (by decide +kernel)) paths
  · exact finds_package (.inl (by decide +kernel)) paths
  · have leads : located importer "@/components/Page" = "src/components/Page" :=
      located_alias importer "components/Page"
    refine .inr ⟨by decide, "src/components/Page.tsx", ?_, scaffold _ (by decide)⟩
    rw [leads]
    decide
  · have leads : located importer "@/components" = "src/components" := located_alias importer "components"
    refine .inr ⟨by decide, "src/components/index.ts", ?_, scaffold _ (by decide)⟩
    rw [leads]
    decide

end Sources

section Pages

/-- The source of the style sheet of a page, in its module. -/
def sheetSource (p : Page) : String := Component.stylesheetPath (Route.component p.fileName)

theorem located_sheet (p : Page) : located (modulePath p) (sheetSource p) = sheetPath p := by
  have name := slash_component p.fileName
  have text : (sheetSource p).toList = ".".toList ++ '/' :: (Route.component p.fileName ++
      ".module.scss").toList := by
    simp [sheetSource, Component.stylesheetPath]
  have file := isSegment_component p.fileName ".module.scss"
  have segments : Delivery.segments (sheetSource p) = [Route.component p.fileName ++ ".module.scss"] := by
    rw [Delivery.segments, text, Text.pieces_append, Text.pieces_whole (by decide),
      Text.pieces_whole (by simp [name])]
    simp only [List.cons_append, List.nil_append, List.map_cons, List.map_nil, String.ofList_toList,
      List.filter_cons, file, if_true]
    rfl
  have down : Route.component p.fileName ++ ".module.scss" ≠ ".." :=
    component_append_ne p.fileName ".module.scss" (by decide)
  have relative : Text.hasStart "@/" (sheetSource p) = false := by
    rw [Text.hasStart, text]
    rfl
  rw [located, relative, if_neg Bool.false_ne_true, importedPath, segments, modulePath,
    segments_pagePath p (by decide), ← String.toList_inj]
  simp [seenFrom, down, Delivery.joinSegments, String.intercalate_cons_cons, sheetPath, Route.directory]

/-- The style sheet of a page is added exactly if its module has a class. -/
theorem sheet_of_page {c : Catalogue} {s : Stack} {ps : List Page} {groups : List (List OutputFile)}
    (components : (ps.map fun p => Route.component p.fileName).Nodup) (h : PageFiles c s ps groups)
    {p : Page} (mem : p ∈ ps) : ∃ m, Writes c s p m ∧ moduleFile p m ∈ groups.flatten ∧
      (sheetPath p ∈ groups.flatten.map (·.path) ↔ m.classes.isEmpty = false) := by
  have own {p q : Page} {path : String} (mem : path ∈ pagePaths p) (mem' : path ∈ pagePaths q) :
      Route.component p.fileName = Route.component q.fileName :=
    Option.some.inj ((mem_pagePaths mem).2.symm.trans (mem_pagePaths mem').2)
  have sheet (p : Page) : sheetPath p ∈ pagePaths p := List.mem_cons_of_mem _ (List.mem_singleton_self _)
  induction h with
  | nil => cases mem
  | @cons q fs r groups written rest ih =>
    obtain ⟨m, writes, rfl⟩ := written
    obtain ⟨new, others⟩ := List.nodup_cons.1 components
    obtain rfl | mem := List.mem_cons.1 mem
    · have later : sheetPath p ∉ groups.flatten.map (·.path) := by
        intro there
        obtain ⟨q, listed, path⟩ := List.mem_flatMap.1 ((paths_groups rest).mem there)
        exact new (List.mem_map.2 ⟨q, listed, own path (sheet p)⟩)
      refine ⟨m, writes, List.mem_append_left _ ?_, ?_⟩
      · rw [filesOf]
        split <;> exact List.mem_cons_self
      · have other : sheetPath p ≠ modulePath p := by
          have apart := nodup_pagePaths p
          simp only [pagePaths, List.nodup_cons, List.mem_singleton] at apart
          exact Ne.symm apart.1
        have paths : (filesOf p m).map (·.path) =
            if m.classes.isEmpty then [modulePath p] else pagePaths p := by
          rw [filesOf]
          split <;> rfl
        rw [List.flatten_cons, List.map_append, List.mem_append, or_iff_left later, paths]
        cases m.classes.isEmpty with
        | true => simpa using other
        | false => simpa using sheet p
    · obtain ⟨m', writes', there, added⟩ := ih others mem
      have apart : sheetPath p ∉ (filesOf q m).map (·.path) := fun there =>
        new (List.mem_map.2 ⟨p, mem, own (sheet p) ((paths_filesOf q m).mem there)⟩)
      refine ⟨m', writes', List.mem_append_right _ there, ?_⟩
      rw [List.flatten_cons, List.map_append, List.mem_append, or_iff_right apart, added]

end Pages

section Entries

variable {m : Module}

theorem mem_lineEntries (stocked : Component.Stocked m) {e : Entry} (mem : e ∈ m.lineEntries) :
    e.1 ∈ pageSources := by
  obtain ⟨e', found, rfl⟩ := List.mem_map.1 ((lineEntries_perm m).mem_iff.1 mem)
  exact (stocked e' found).1

/-- Only the import of the style sheet is one of a style sheet. -/
theorem sheetSources_header (stocked : Component.Stocked m) :
    sheetSources (m.headerEntries.map (·.1)) = sheetSources (m.stylesheetEntries.map (·.1)) := by
  have none : (m.lineEntries.map (·.1)).filter (importGroup · == 2) = [] := by
    refine List.filter_eq_nil_iff.2 (List.forall_mem_map.2 fun e mem => ?_)
    have others : ∀ s ∈ pageSources, ¬ (importGroup s == 2) = true := by decide
    exact others e.1 (mem_lineEntries stocked mem)
  have library : importGroup m.libraryEntry.1 = 0 := by
    change importGroup "react" = 0
    decide
  rw [sheetSources, headerEntries, List.map_cons, List.filter_cons, library, if_neg (by decide), List.map_append,
    List.filter_append, none]
  rfl

theorem sheetSource_given (p : Page) : sheetSource p ≠ "" := by
  intro same
  have text := congrArg String.toList same
  simp [sheetSource, Component.stylesheetPath] at text

theorem stylesheetEntries_own {p : Page} (own : Component.OwnSheet (Route.component p.fileName) m) :
    m.stylesheetEntries = if m.classes.isEmpty then [] else [(sheetSource p, ⟨some "styles", []⟩)] := by
  rw [stylesheetEntries, own]
  cases m.classes.isEmpty with
  | true => rfl
  | false =>
    have given : givenText (some (sheetSource p)) = some (sheetSource p) := by
      simp [givenText, sheetSource_given p]
    change (givenText (some (sheetSource p))).toList.map _ = _
    rw [given]
    rfl

theorem importGroup_sheetSource (p : Page) : importGroup (sheetSource p) = 2 := by
  have ends : Text.hasEnding ".scss" (sheetSource p) = true := by
    refine List.isSuffixOf_iff_suffix.2 ⟨("./" ++ Route.component p.fileName ++ ".module").toList, ?_⟩
    simp [sheetSource, Component.stylesheetPath]
  rw [importGroup, ends]
  rfl

theorem isLocal_sheetSource (p : Page) : Dependency.isLocalSource (sheetSource p) = true := by
  have text : (sheetSource p).toList = '.' :: ("/" ++ Route.component p.fileName ++ ".module.scss").toList := by
    simp [sheetSource, Component.stylesheetPath]
  rw [Dependency.isLocalSource, Text.hasStart, text]
  rfl

end Entries

/-- The project is closed under imports. The module of each page and the router import only from packages
that the project lists and from files that it has, and a module imports its style sheet exactly if that file
is there: this and no other. -/
structure Closed (b : Bundle) (packages : List String) : Prop where
  package : ∃ f, b.files.lookup "package.json" = some f ∧ dependencyNames f.content = some packages
  router : ∃ f sources, b.files.lookup "src/router/index.tsx" = some f ∧
    importSources f.content = some sources ∧
    ∀ s ∈ sources, Finds packages (outputPaths b) "src/router/index.tsx" s
  modules : ∀ p ∈ b.project.pages, ∃ f sources, b.files.lookup (modulePath p) = some f ∧
    importSources f.content = some sources ∧
    (∀ s ∈ sources, Finds packages (outputPaths b) (modulePath p) s) ∧
    (sheetSources sources).map (located (modulePath p)) =
      if sheetPath p ∈ outputPaths b then [sheetPath p] else []

section Assembly

variable (manifest : b.project.manifest = Catalogue.default.packages)
  (components : (b.project.pages.map fun p => Route.component p.fileName).Nodup)
  (supplied : ∀ p ∈ b.project.pages, p.root.Everywhere (·.dependency.IsSupplied))
  (pages : PageFiles .default (.reactVite form) b.project.pages groups)
  (files : b.files = (added b groups).map fun f => (f.path, Format.formed form f))

include components pages files in
/-- A file that was added is in the project, in its form. -/
theorem lookup_files {f : OutputFile} (mem : f ∈ added b groups) :
    b.files.lookup f.path = some (Format.formed form f) := by
  rw [files]
  exact lookup_added (nodup_added components pages b) mem

include components pages files manifest in
theorem closed_package : ∃ f, b.files.lookup "package.json" = some f ∧
    dependencyNames f.content = some packageNames := by
  have mem : Step.packageFile b ∈ added b groups := by
    refine step_added (by simp [Step.all] : Step.package ∈ Step.all) ?_ groups
    rw [Step.made_package]
    exact List.mem_cons_self
  have text : (Step.packageFile b).content =
      Format.manifestText 2 (Scaffold.package b.name Catalogue.default.packages) := by
    rw [← manifest]
    rfl
  exact ⟨_, lookup_files components pages files mem,
    dependencyNames_formed (by decide +kernel) b.name rfl text form⟩

include components pages files in
theorem closed_router : ∃ f sources, b.files.lookup "src/router/index.tsx" = some f ∧
    importSources f.content = some sources ∧
    ∀ s ∈ sources, Finds packageNames (outputPaths b) "src/router/index.tsx" s := by
  refine ⟨_, _, lookup_files components pages files (routerFile_added b groups),
    importSources_router rfl rfl form, ?_⟩
  simp only [routerEntries, routerLibraries, List.map_append, List.map_cons, List.map_nil, List.forall_mem_append,
    List.forall_mem_cons, List.map_map, List.forall_mem_map]
  refine ⟨⟨finds_package (.inr (by decide)) _, finds_package (.inr (by decide)) _, by simp⟩, fun p mem => ?_⟩
  obtain ⟨m, -, there⟩ := mem_groups pages mem
  have known : modulePath p ∈ outputPaths b := by
    rw [outputPaths_eq files]
    refine List.mem_map.2 ⟨moduleFile p m, ?_, rfl⟩
    exact List.mem_append_left _ (List.mem_append_right _ there)
  obtain ⟨r, text⟩ : ∃ r, (routeSource p).toList = '.' :: r := by
    simp [routeSource]
  have isLocal : Dependency.isLocalSource (routeSource p) = true := by
    rw [Dependency.isLocalSource, Text.hasStart, text]
    rfl
  have relative : Text.hasStart "@/" (routeSource p) = false := by
    rw [Text.hasStart, text]
    rfl
  refine .inr ⟨isLocal, modulePath p, ?_, known⟩
  change modulePath p ∈ completions (located _ (routeSource p))
  rw [located, relative, if_neg Bool.false_ne_true, ← importedPath_page]
  exact List.mem_cons_of_mem _ List.mem_cons_self

include components pages files supplied in
theorem closed_module {p : Page} (mem : p ∈ b.project.pages) : ∃ f sources,
    b.files.lookup (modulePath p) = some f ∧ importSources f.content = some sources ∧
    (∀ s ∈ sources, Finds packageNames (outputPaths b) (modulePath p) s) ∧
    (sheetSources sources).map (located (modulePath p)) =
      if sheetPath p ∈ outputPaths b then [sheetPath p] else [] := by
  obtain ⟨m, ⟨log, ok⟩, there, sheet⟩ := sheet_of_page components pages mem
  have added : moduleFile p m ∈ added b groups :=
    List.mem_append_left _ (List.mem_append_right _ there)
  obtain ⟨stocked, own⟩ : Component.Stocked m ∧ Component.OwnSheet (Route.component p.fileName) m := by
    have all := Component.writeAll_sources .default Handlers.default (supplied p mem) form.lineWidth
      (Route.component p.fileName) log
    have result : (PagePart.writeAll .default Handlers.default p [.styles, .markup form.lineWidth]
        (Module.new (Route.component p.fileName)) log).1 = (.ok (), m) := Except.ok.inj ok
    rwa [result] at all
  have known : sheetPath p ∈ outputPaths b ↔ m.classes.isEmpty = false := by
    have apart : sheetPath p ∉ scaffoldPaths Step.early ++ scaffoldPaths Step.late :=
      pagePaths_apart (List.mem_cons_of_mem _ (List.mem_singleton_self _))
    simp only [List.mem_append, not_or] at apart
    rw [outputPaths_eq files, added_paths, List.mem_append, List.mem_append, or_iff_left apart.2,
      or_iff_right apart.1, sheet]
  have scaffold : ∀ path ∈ scaffoldPaths Step.early ++ scaffoldPaths Step.late, path ∈ outputPaths b :=
    fun path => scaffold_path files
  refine ⟨_, _, lookup_files components pages files added,
    importSources_module (fun e mem => (stocked e mem).2) rfl rfl form, ?_, ?_⟩
  · simp only [headerEntries, List.forall_mem_map, List.forall_mem_cons, List.forall_mem_append]
    have library : "react" ∈ corePackages.map (·.1) := by decide
    refine ⟨finds_package (.inr library) _, fun e line => ?_, fun e line => ?_⟩
    · exact finds_pageSource scaffold (mem_lineEntries stocked line)
    · rw [stylesheetEntries_own own] at line
      split at line
      · cases line
      · next styled =>
        obtain rfl := List.mem_singleton.1 line
        refine .inr ⟨isLocal_sheetSource p, sheetPath p, ?_, known.2 (by simpa using styled)⟩
        rw [located_sheet]
        exact List.mem_cons_self
  · rw [sheetSources_header stocked, stylesheetEntries_own own, if_congr known rfl rfl]
    cases m.classes.isEmpty with
    | true => rfl
    | false =>
      change ([sheetSource p].filter (importGroup · == 2)).map _ = _
      rw [List.filter_cons, importGroup_sheetSource, List.filter_nil]
      exact congrArg (fun path => [path]) (located_sheet p)

end Assembly

/-- What an export for a schema with the stack of single-page applications comes to: a project with the files of its
pages, which are lifted and written, or a fault that the page nodes bring in. -/
theorem bundle_assembled (o : Order) (form : Format.Options) (schema : Value) (log : List Notice) :
    let outcome := (bundle { o with catalogue := .default } (.reactVite form) schema log).1
    match Schema.read schema with
    | .error f => outcome = .error f
    | .ok ns => Job.Meets (allFaultsOf (Reading.pageRoots ns)) (fun b => ∃ groups,
        Reading.Named [] 0 (Reading.pageRoots ns) b.project.pages ∧
        b.project.manifest = Catalogue.default.packages ∧
        (∀ p ∈ b.project.pages, p.root.Everywhere (·.dependency.IsSupplied) ∧ Lifting.IsNamed p) ∧
        PageFiles .default (.reactVite form) b.project.pages groups ∧
        b.files = (added b groups).map fun f => (f.path, Format.formed form f)) outcome := by
  have laid := bundle_laid o form schema log
  cases read : Schema.read schema with
  | error f =>
    rw [read] at laid
    exact laid
  | ok ns =>
    refine (bundle_meets o form read log).mono ?_ (Set.Subset.refl _)
    rintro b ⟨project, ok, same, laid⟩
    have usual := Catalogue.default_readsAsDefault
    have supplied := Reading.project_everywhere (P := fun _ => True) usual (fun _ _ _ _ h _ => h.provided.supplied)
      read (fun n _ => n.everywhere_of_forall fun _ => trivial) log project ok
    have named := Lifting.project_named Lifting.drives_default
      (Reading.project_named .default schema log project ok) [] _ (lifting_ends ok [])
    obtain ⟨ns', read', names⟩ := Reading.project_fileNames .default schema log project ok
    cases read.symm.trans read'
    have kept := names.map (f := Lifting.outcome .default) fun _ => rfl
    obtain ⟨groups, pages, -, files⟩ := laid.files
    refine ⟨groups, by rwa [same], ?_, fun p mem => ?_, pages, files⟩
    · obtain ⟨-, -, -, -, manifest⟩ := Reading.project_read ok
      rw [same]
      exact manifest
    · rw [same] at mem
      refine ⟨?_, named p mem⟩
      obtain ⟨q, there, rfl⟩ := List.mem_map.1 mem
      have uniform := Reading.project_uniform usual schema log project ok q there
      exact Lifting.outcome_faces (Q := (·.dependency.IsSupplied)) uniform (supplied q there)

/-- Whatever a schema holds that can be read, the project that is exported for it with the stack of
single-page applications has a page for each of its page nodes, and is closed under imports; there is none if the
page nodes bring in a fault. -/
theorem bundle_closed (o : Order) (form : Format.Options) (schema : Value) (log : List Notice) :
    let outcome := (bundle { o with catalogue := .default } (.reactVite form) schema log).1
    match Schema.read schema with
    | .error f => outcome = .error f
    | .ok ns => Job.Meets (allFaultsOf (Reading.pageRoots ns)) (fun b => ∃ packages,
        Reading.Named [] 0 (Reading.pageRoots ns) b.project.pages ∧ Closed b packages) outcome := by
  have assembled := bundle_assembled o form schema log
  cases read : Schema.read schema with
  | error f =>
    rw [read] at assembled
    exact assembled
  | ok ns =>
    rw [read] at assembled
    refine assembled.mono ?_ (Set.Subset.refl _)
    rintro b ⟨groups, names, manifest, given, pages, files⟩
    have components := names.apart.components
    have supplied : ∀ p ∈ b.project.pages, p.root.Everywhere (·.dependency.IsSupplied) :=
      fun p mem => (given p mem).1
    exact ⟨packageNames, names, closed_package manifest components pages files,
      closed_router components pages files, fun p mem => closed_module components supplied pages files mem⟩

end Export

end Pagesmith
