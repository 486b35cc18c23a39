import Pagesmith.Proofs.Component.Success
import Pagesmith.Proofs.Export.Paths
import Pagesmith.Proofs.Lifting.Whole
import Pagesmith.Proofs.Reading.FileNames
import Pagesmith.Proofs.Reading.Mirror
import Pagesmith.Proofs.Reading.Plain

/-!
What an export for the stack of single-page applications puts together. Every schema that can be read
becomes a project, unless its page nodes bring in a fault: no page fails to be written, every file has a path of its
own and is there in the end, and the router leads to the module of each page.
-/

namespace Pagesmith

namespace Export
open Scaffold

variable {c : Catalogue} {s : Stack} {faults : Set Fault}

/-- The module is what is written for the page. -/
def Writes (c : Catalogue) (s : Stack) (p : Page) (m : Module) : Prop :=
  ∃ log, (Build.runOn (Module.new (Route.component p.fileName))
    (PagePart.writeAll c Handlers.default p s.parts) log).1 = .ok (.ok (), m)

/-- The file of a page's module. -/
def moduleFile (p : Page) (m : Module) : OutputFile :=
  .ofPath (modulePath p) (m.text (some (Route.component p.fileName))) .tsx

/-- The files of a page: its module, and the style sheet of it if it has classes. -/
def filesOf (p : Page) (m : Module) : List OutputFile :=
  if m.classes.isEmpty then [moduleFile p m]
  else [moduleFile p m, .ofPath (sheetPath p) m.stylesheetText .scss]

theorem pageFiles_completes (c : Catalogue) (s : Stack) {p : Page} (whole : p.IsWhole faults) :
    (pageFiles c s p).Completes faults fun fs => ∃ m, Writes c s p m ∧ fs = filesOf p m := by
  have written := PagePart.runOn_gives c Handlers.default whole s.parts (Route.component p.fileName)
  refine .bind (written.completes.and (.ran _)) fun r ⟨outcome, log, ran⟩ => ?_
  obtain ⟨r, m⟩ := r
  cases r with
  | error f => exact .bind (P := fun _ => False) (.ofExcept outcome) fun _ none => none.elim
  | ok =>
    refine .bind (.ofExcept outcome) fun _ classes => ?_
    dsimp only
    split
    · next none => exact .pure ⟨m, ⟨log, ran⟩, by rw [filesOf, if_pos none, moduleFile, modulePath]⟩
    · next some =>
      refine .bind (.ofExcept (classes.sheet whole)) ?_
      rintro _ rfl
      exact .pure ⟨m, ⟨log, ran⟩, by rw [filesOf, if_neg some, moduleFile, modulePath, sheetPath]⟩

/-- The files of the steps of a phase. -/
def stepFiles (phase : String) (b : Bundle) : List OutputFile :=
  (Step.ofPhase phase Step.all).flatMap (·.made b)

theorem stepFiles_files (phase : String) {b b' : Bundle} (project : b'.project = b.project)
    (name : b'.name = b.name) : stepFiles phase b' = stepFiles phase b :=
  List.flatMap_congr fun s _ => Step.made_files s project name

theorem stepFiles_withFiles (phase : String) (b : Bundle) (fs : List OutputFile) :
    stepFiles phase (b.withFiles fs) = stepFiles phase b :=
  stepFiles_files phase (Bundle.project_withFiles fs b) (Bundle.name_withFiles fs b)

theorem runSteps_end (phase : String) (b : Bundle) :
    (runSteps (Step.ofPhase phase Step.all) b).Ends
      (b.withFiles (stepFiles phase b)) := by
  -- What a later step makes does not hang on the files of the earlier ones, so all of it is known from
  -- the bundle at the start.
  have run {steps : List Scaffold.Step} (known : ∀ step ∈ steps, step ∈ Step.all)
      (b : Bundle) : (runSteps steps b).Ends (b.withFiles (steps.flatMap (·.made b))) := by
    induction steps generalizing b with
    | nil => exact .pure _
    | cons step r ih =>
      obtain ⟨first, rest⟩ := List.forall_mem_cons.1 known
      have more := ih rest (b.withFiles (step.made b))
      rw [Bundle.withFiles_append] at more
      have same : r.flatMap (·.made (b.withFiles (step.made b))) = r.flatMap (·.made b) :=
        List.flatMap_congr fun s _ =>
          Step.made_files s (Bundle.project_withFiles _ b) (Bundle.name_withFiles _ b)
      rw [same] at more
      exact .bind (.note _) (.bind (Step.run_ends first b) more)
  exact run (fun step mem => (Step.mem_ofPhase.1 mem).1) b

/-- Each page has the files of a module that is written for it. -/
def PageFiles (c : Catalogue) (s : Stack) (ps : List Page) (groups : List (List OutputFile)) : Prop :=
  List.Forall₂ (fun p fs => ∃ m, Writes c s p m ∧ fs = filesOf p m) ps groups

theorem addPages_completes (c : Catalogue) (s : Stack) {ps : List Page} (whole : ∀ p ∈ ps, p.IsWhole faults)
    (b : Bundle) : (addPages c s ps b).Completes faults fun b' =>
      ∃ groups, PageFiles c s ps groups ∧ b' = b.withFiles groups.flatten := by
  induction ps generalizing b with
  | nil => exact .pure ⟨[], .nil, rfl⟩
  | cons p r ih =>
    obtain ⟨first, rest⟩ := List.forall_mem_cons.1 whole
    refine .bind (pageFiles_completes c s first) fun fs written => ?_
    refine .bind (P := (· = b.withFiles fs)) ?_ ?_
    · exact (Bundle.addAll_ends fs b).gives.completes
    · rintro _ rfl
      refine .bind (.note _) fun _ _ => (ih rest (b.withFiles fs)).mono ?_
      rintro _ ⟨groups, more, rfl⟩
      exact ⟨fs :: groups, .cons written more, Bundle.withFiles_append _ _ _⟩

section Laid

/-- All files that are added for a project: those of the steps before the pages, those of the pages,
and those of the steps after them. -/
def added (b : Bundle) (groups : List (List OutputFile)) : List OutputFile :=
  stepFiles Step.early b ++ groups.flatten ++ stepFiles Step.late b

theorem added_files {b b' : Bundle} (project : b'.project = b.project) (name : b'.name = b.name)
    (groups : List (List OutputFile)) : added b' groups = added b groups := by
  simp only [added, stepFiles_files _ project name]

theorem paths_stepFiles (phase : String) (b : Bundle) :
    (stepFiles phase b).map (·.path) = scaffoldPaths phase := by
  rw [stepFiles, List.map_flatMap]
  exact List.flatMap_congr fun step mem => Step.made_places (Step.mem_ofPhase.1 mem).1 b

theorem paths_filesOf (p : Page) (m : Module) :
    List.Sublist ((filesOf p m).map (·.path)) (pagePaths p) := by
  rw [filesOf]
  split
  · exact (List.nil_sublist _).cons_cons _
  · exact .refl _

theorem paths_groups {ps : List Page} {groups : List (List OutputFile)} (h : PageFiles c s ps groups) :
    List.Sublist (groups.flatten.map (·.path)) (ps.flatMap pagePaths) := by
  induction h with
  | nil => exact .slnil
  | cons written rest ih =>
    obtain ⟨m, -, rfl⟩ := written
    rw [List.flatten_cons, List.map_append, List.flatMap_cons]
    exact (paths_filesOf _ m).append ih

/-- No path is added twice. -/
theorem nodup_added {ps : List Page} {groups : List (List OutputFile)}
    (components : (ps.map fun p => Route.component p.fileName).Nodup) (h : PageFiles c s ps groups)
    (b : Bundle) : ((added b groups).map (·.path)).Nodup := by
  rw [added, List.map_append, List.map_append, paths_stepFiles, paths_stepFiles]
  exact (nodup_paths components).sublist (((List.Sublist.refl _).append (paths_groups h)).append
    (.refl _))

/-- A finished project: every file that was added for it is there, at a path of its own; its router has
one route for each page, in their order, and imports each page from where the page's module is. -/
structure Laid (form : Format.Options) (b : Bundle) : Prop where
  files : ∃ groups, PageFiles .default (.reactVite form) b.project.pages groups ∧
    ((added b groups).map (·.path)).Nodup ∧
    b.files = (added b groups).map fun f => (f.path, Format.formed form f)
  router : ∃ f, b.files.lookup "src/router/index.tsx" = some f ∧
    readRoutes f.content =
      some (b.project.pages.map fun p => (Route.path p.fileName, Route.component p.fileName)) ∧
    Script.readImports f.content = some (routerLibraries.map Module.Entry.said ++
      b.project.pages.map fun p => ⟨routeSource p, some (Route.component p.fileName), []⟩)
  modules : ∀ p ∈ b.project.pages, ∃ m, Writes .default (.reactVite form) p m ∧
    b.files.lookup (importedPath "src/router/index.tsx" (routeSource p) ++ ".tsx") =
      some (Format.formed form (moduleFile p m))

variable {form : Format.Options} {b : Bundle}

/-- A file that was added is found at its path. -/
theorem lookup_added {groups : List (List OutputFile)}
    (once : ((added b groups).map (·.path)).Nodup) {f : OutputFile} (mem : f ∈ added b groups) :
    ((added b groups).map fun f => (f.path, Format.formed form f)).lookup f.path =
      some (Format.formed form f) := by
  refine Table.lookup_of_mem ?_ (List.mem_map_of_mem mem)
  rwa [List.map_map]

theorem mem_groups {ps : List Page} {groups : List (List OutputFile)} (h : PageFiles c s ps groups)
    {p : Page} (mem : p ∈ ps) : ∃ m, Writes c s p m ∧ moduleFile p m ∈ groups.flatten := by
  induction h with
  | nil => cases mem
  | cons written rest ih =>
    obtain rfl | mem := List.mem_cons.1 mem
    · obtain ⟨m, writes, rfl⟩ := written
      refine ⟨m, writes, List.mem_append_left _ ?_⟩
      rw [filesOf]
      split <;> exact List.mem_cons_self
    · obtain ⟨m, writes, there⟩ := ih mem
      exact ⟨m, writes, List.mem_append_right _ there⟩

/-- What a step makes is added, in whatever phase it has its turn. -/
theorem step_added {step : Scaffold.Step} (known : step ∈ Step.all) {f : OutputFile} (made : f ∈ step.made b)
    (groups : List (List OutputFile)) : f ∈ added b groups := by
  have phase : step.phase = Step.early ∨ step.phase = Step.late := by
    cases step <;> first | exact .inl rfl | exact .inr rfl
  obtain early | late := phase
  · refine List.mem_append_left _ (List.mem_append_left _ (List.mem_flatMap.2 ⟨step, ?_, made⟩))
    exact Step.mem_ofPhase.2 ⟨known, early⟩
  · exact List.mem_append_right _ (List.mem_flatMap.2 ⟨step, Step.mem_ofPhase.2 ⟨known, late⟩, made⟩)

theorem routerFile_added (b : Bundle) (groups : List (List OutputFile)) :
    Step.routerFile b.project.pages ∈ added b groups := by
  refine step_added (by simp [Step.all] : Step.router ∈ Step.all) ?_ groups
  rw [Step.made_router]
  exact List.mem_cons_self

theorem laid_of_files {groups : List (List OutputFile)}
    (components : (b.project.pages.map fun p => Route.component p.fileName).Nodup)
    (h : PageFiles .default (.reactVite form) b.project.pages groups)
    (files : b.files = (added b groups).map fun f => (f.path, Format.formed form f)) :
    Laid form b := by
  have once := nodup_added components h b
  have router := routerFile_added b groups
  have routes := readRoutes_router (f := Step.routerFile b.project.pages) rfl rfl form
  have imports := readImports_router (f := Step.routerFile b.project.pages) rfl rfl form
  rw [routerEntries, List.map_append, List.map_map] at imports
  refine ⟨⟨groups, h, once, files⟩, ⟨_, ?_, routes, imports⟩, fun p mem => ?_⟩
  · rw [files]
    exact lookup_added once router
  · obtain ⟨m, writes, there⟩ := mem_groups h mem
    refine ⟨m, writes, ?_⟩
    rw [importedPath_page, files]
    exact lookup_added once (List.mem_append_left _ (List.mem_append_right _ there))

end Laid

/-- What is put together for a project whose pages can be written: all files of its steps and its
pages, each brought into form. -/
theorem assembled (form : Format.Options) {b : Bundle} (empty : b.files = [])
    (components : (b.project.pages.map fun p => Route.component p.fileName).Nodup)
    (whole : ∀ p ∈ b.project.pages, p.IsWhole faults) (notice : Notice) : Job.Completes (do
      let before ← runSteps (Step.ofPhase Step.early Step.all) b
      let withPages ← addPages .default (.reactVite form) b.project.pages before
      Job.note notice
      let all ← runSteps (Step.ofPhase Step.late Step.all) withPages
      all.finish [.form form])
    faults fun b' => b'.project = b.project ∧ Laid form b' := by
  refine .bind (runSteps_end _ b).gives.completes ?_
  rintro _ rfl
  refine .bind (addPages_completes .default (.reactVite form) whole _) ?_
  rintro _ ⟨groups, pages, rfl⟩
  refine .bind (.note _) fun _ _ => .bind (runSteps_end _ _).gives.completes ?_
  rintro _ rfl
  rw [stepFiles_withFiles, stepFiles_withFiles, Bundle.withFiles_append, Bundle.withFiles_append,
    ← List.append_assoc, ← added]
  refine (Bundle.finish_form_ends form _).gives.completes.mono ?_
  rintro _ rfl
  have project := Bundle.project_withFiles (added b groups) b
  -- Being in form touches the files only, which `added` does not look at.
  have files : ((b.withFiles (added b groups)).mapFiles (Format.formed form)).files =
      (added ((b.withFiles (added b groups)).mapFiles (Format.formed form)) groups).map
        fun f => (f.path, Format.formed form f) := by
    have same : added ((b.withFiles (added b groups)).mapFiles (Format.formed form)) groups =
        added b groups := added_files project (Bundle.name_withFiles _ b) groups
    rw [same, Bundle.files_mapFiles, Bundle.files_withFiles empty (nodup_added components pages b),
      Table.mapValues, List.map_map]
    rfl
  refine ⟨project, laid_of_files ?_ ?_ files⟩
  · rwa [Bundle.project_mapFiles, project]
  · rwa [Bundle.project_mapFiles, project]

section Read

variable {schema : Value} {ns : List EditorNode} {log : List Notice} {project : Project}

/-- Pages that were read with the default catalogue can be written once they are lifted, but for the faults that the
page nodes bring in. -/
theorem lifted_whole (read : Schema.read schema = .ok ns)
    (ok : (Reading.project .default schema log).1 = .ok project) :
    ∀ p ∈ project.pages.map (Lifting.outcome .default), p.IsWhole (allFaultsOf (Reading.pageRoots ns)) := by
  have usual := Catalogue.default_readsAsDefault
  refine List.forall_mem_map.2 fun p mem => ?_
  obtain ⟨states, methods, plain, -⟩ :=
    Reading.project_plain (Reading.plain_of_readsAsDefault usual) schema log project ok p mem
  exact Lifting.outcome_whole states methods plain (Reading.project_whole usual read log project ok p mem)
    (Reading.project_styles usual read log project ok p mem)

/-- Pages that were read with the default catalogue are lifted. -/
theorem lifting_ends (ok : (Reading.project .default schema log).1 = .ok project) :
    (Lifting.project .default project).Ends
      { project with pages := project.pages.map (Lifting.outcome .default) } := by
  have none : {f | ∃ q ∈ project.pages, f ∈ Lifting.faults q} = ∅ := by
    refine Set.eq_empty_of_forall_notMem fun f => ?_
    rintro ⟨q, mem, fault⟩
    have keeps := Reading.plain_of_readsAsDefault Catalogue.default_readsAsDefault
    obtain ⟨-, -, -, short⟩ := Reading.project_plain keeps schema log project ok q mem
    rw [Lifting.faults_eq_empty short] at fault
    exact fault
  have ends := Lifting.project_ends .default project
  rw [none] at ends
  intro said
  obtain ⟨lifted, done, rfl⟩ := ends.gives said
  exact done

/-- What an export for a schema comes to: a finished project of the lifted pages, or a fault that the page nodes bring
in. -/
theorem bundle_meets (o : Order) (form : Format.Options) (read : Schema.read schema = .ok ns) (log : List Notice) :
    Job.Meets (allFaultsOf (Reading.pageRoots ns)) (fun b => ∃ project,
        (Reading.project .default schema log).1 = .ok project ∧
        b.project = { project with pages := project.pages.map (Lifting.outcome .default) } ∧ Laid form b)
      (bundle { o with catalogue := .default } (.reactVite form) schema log).1 := by
  have mirrors := Reading.project_mirrors Catalogue.default_readsAsDefault schema log
  rw [read] at mirrors
  refine Job.meets_bind (mirrors.mono (fun _ _ => trivial) (faultsOf_subset _)) fun project ok (_ : True) => ?_
  obtain ⟨ns', -, names⟩ := Reading.project_fileNames .default schema log project ok
  -- Lifting changes no file name, so the lifted pages have the names that were found in reading.
  have kept := names.map (f := Lifting.outcome .default) fun _ => rfl
  refine Job.Completes.bind (.note _) (fun _ _ => ?_) _
  refine .bind (lifting_ends ok).gives.completes ?_
  rintro _ rfl
  refine .bind (.note _) fun _ _ => .bind (Job.Ends.ofExcept rfl).gives.completes ?_
  rintro _ rfl
  refine .bind (Job.Ends.pure _).gives.completes ?_
  rintro _ rfl
  refine (assembled form rfl kept.apart.components (lifted_whole read ok) _).mono ?_
  rintro b ⟨same, laid⟩
  exact ⟨project, ok, same, laid⟩

/-- Every schema that can be read becomes a finished project, unless its page nodes bring in a fault. -/
theorem bundle_laid (o : Order) (form : Format.Options) (schema : Value) (log : List Notice) :
    let outcome := (bundle { o with catalogue := .default } (.reactVite form) schema log).1
    match Schema.read schema with
    | .error f => outcome = .error f
    | .ok ns => Job.Meets (allFaultsOf (Reading.pageRoots ns)) (fun b =>
        Reading.Named [] 0 (Reading.pageRoots ns) b.project.pages ∧ Reading.Apart b.project.pages ∧ Laid form b)
      outcome := by
  cases read : Schema.read schema with
  | error f =>
    have project := Reading.project_mirrors Catalogue.default_readsAsDefault schema log
    rw [read] at project
    exact Job.bind_error project _
  | ok ns =>
    refine (bundle_meets o form read log).mono ?_ (Set.Subset.refl _)
    rintro b ⟨project, ok, same, laid⟩
    obtain ⟨ns', read', names⟩ := Reading.project_fileNames .default schema log project ok
    cases read.symm.trans read'
    have kept := names.map (f := Lifting.outcome .default) fun _ => rfl
    rw [same]
    exact ⟨kept, kept.apart, laid⟩

end Read

/-- The pages of a project are called by the first names that no page before them has; so they differ
in file names, component names, folders and routes, and the first of them alone is at the root. For the
stack of single-page applications every schema that can be read becomes a project with these pages, unless its page
nodes bring in a fault, and in the project no path is used twice and the router leads to the module of each page. -/
theorem pages_apart_and_laid :
    (∀ (used : List String) (base : String),
      Reading.IsFirstUnused used base (Reading.pageFileName used base)) ∧
    (∀ (c : Catalogue) (schema : Value), (Reading.project c schema).Yields fun p =>
      ∃ ns, Schema.read schema = .ok ns ∧
        Reading.Named [] 0 (Reading.pageRoots ns) p.pages ∧ Reading.Apart p.pages) ∧
    ∀ (o : Order) (form : Format.Options) (schema : Value) (log : List Notice),
      let outcome := (bundle { o with catalogue := .default } (.reactVite form) schema log).1
      match Schema.read schema with
      | .error f => outcome = .error f
      | .ok ns => Job.Meets (allFaultsOf (Reading.pageRoots ns)) (fun b =>
          Reading.Named [] 0 (Reading.pageRoots ns) b.project.pages ∧ Reading.Apart b.project.pages ∧ Laid form b)
        outcome := by
  refine ⟨Reading.pageFileName_first, fun c schema log p ok => ?_, bundle_laid⟩
  obtain ⟨ns, read, names⟩ := Reading.project_fileNames c schema log p ok
  exact ⟨ns, read, names, names.apart⟩

end Export

end Pagesmith
