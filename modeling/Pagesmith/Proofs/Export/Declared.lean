import Pagesmith.Proofs.Component.Imported
import Pagesmith.Proofs.Export.Generation
import Pagesmith.Proofs.Module.Declared

/-!
The names that the files of a project declare. The component of a page is called by its file name alone, and its
name starts with a capital. So it meets none of the hooks, style sheets and routes; of the names that its module
and the router take from libraries it meets those that start with a capital as well, if a page is called so.
-/

namespace Pagesmith

namespace Component
open Build Pagesmith.Module Script Text

section Names

variable {m : Module}

variable {p : Page} (h : Orderly p m)
include h

theorem headerNames_nodup : (m.headerEntries.flatMap fun e => e.2.locals).Nodup := by
  refine headerLocals_nodup h.linked h.sound.apart fun n fixed => h.own n ?_
  obtain rfl | rfl | rfl | rfl := mem_fixedNames fixed <;> simp [ownNames]

/-- Among the names of its imports a module meets its own name only if it is called like the view library. -/
theorem mem_headerLocals {s : String} (called : m.name = pascalCase s) :
    pascalCase s ∈ (m.headerEntries.flatMap fun e => e.2.locals) ↔ pascalCase s = "React" := by
  have own : pascalCase s ∉ m.importLocals := fun mem =>
    h.own _ (by simp [ownNames, called]) (h.linked.locals.mem_iff.1 mem)
  rw [(headerLocals_perm m).mem_iff, List.mem_append, or_iff_left own]
  constructor
  · intro fixed
    obtain same | same | same | same := mem_fixedNames fixed
    · exact same
    · exact absurd same (pascalCase_ne s ⟨'u', rfl, by decide⟩)
    · exact absurd same (pascalCase_ne s ⟨'u', rfl, by decide⟩)
    · exact absurd same (pascalCase_ne s ⟨'s', rfl, by decide⟩)
  · intro same
    rw [same]
    exact List.mem_cons_self

end Names

/-- Writing a page leaves the name of its module. -/
theorem writeAll_name (c : Catalogue) (handlers : Handlers) (p : Page) (width : Nat) (name : String) :
    (PagePart.writeAll c handlers p [.styles, .markup width]).Ensures (new name) fun _ m => m.name = name := by
  have lasts : OutlastsCode fun m => m.name = name := fun _ _ _ _ _ _ _ h => h
  have imports (d : Dependency) (wish : Option String) : Keeps (fun m => m.name = name) (addImport d wish) := by
    refine fun m h => (addImport_ensures d wish m).mono ?_
    rintro r m' ⟨-, -, ⟨-, -, rfl⟩ | ⟨-, -, rfl⟩ | ⟨-, -, -, rfl⟩⟩
    all_goals exact h
  have markup : Keeps (fun m => m.name = name) (writeMarkup ⟨c, handlers, width⟩ p) :=
    lasts.writeMarkup (imports _) _ (Node.everywhere_of_forall (fun _ => imports _) _)
  have styled : (addStyles p.root (new name)).name = name := by
    obtain ⟨classes, nodeClasses, sheet, same⟩ := addStyles_eq p.root (new name)
    rw [same]
    rfl
  refine .bind ((writeStyles_ensures p _).mono ?_)
  rintro r m ⟨rfl, rfl⟩
  exact (markup _ styled).seq (fun _ h => h) fun _ _ h => .pure h

end Component

namespace Export
open Scaffold Pagesmith.Module Script Text

section Router

/-- The names of a router in front of those of the pages. -/
def routerNames : List String := ["React", "createBrowserRouter", "RouterProvider"]

/-- The constants of a router. -/
def routerConstants : List String := ["router", "AppRouter"]

theorem locals_routerEntries (ps : List Page) : ((routerEntries ps).flatMap fun e => e.2.locals) =
    routerNames ++ ps.map fun p => Route.component p.fileName := by
  rw [routerEntries, List.flatMap_append, List.flatMap_map]
  refine congrArg (routerNames ++ ·) ?_
  simp [pageEntry, ImportEntry.locals, List.map_eq_flatMap]

/-- A router in form declares the names of its libraries, the component of each page, and its constants. -/
theorem declaredNames_router {ps : List Page} {f : OutputFile} (source : f.kind.category = .source)
    (content : f.content = closedLines (routerLines ps)) (o : Format.Options) :
    declaredNames (Format.formed o f).content =
      routerNames ++ (ps.map fun p => Route.component p.fileName) ++ routerConstants := by
  have listed : ∀ e ∈ routerEntries ps, e.Listed := fun e mem => (named_routerEntries ps e mem).listed
  have imports : (importStatements [] (((routerEntries ps).map Entry.line).map String.toList)).flatMap
      importNames = routerNames ++ ps.map fun p => Route.component p.fileName := by
    rw [← shownLines_routerEntries, Entry.statements_lines listed, List.flatMap_map, ← locals_routerEntries]
    exact List.flatMap_congr fun e mem => (listed e mem).importNames
  have routes : ((ps.flatMap routeLines).map String.toList).filter declares = [] := by
    refine List.filter_eq_nil_iff.2 ?_
    simp only [List.forall_mem_map, List.forall_mem_flatMap]
    intro p _ l mem
    obtain ⟨r, text⟩ := (hasHead_route p l mem).cons
    rw [text, declares_other (by decide)]
    decide
  have closing : ((Format.inked (routesClosing.map String.toList)).filter declares).map constantName =
      ["AppRouter"] := by decide +kernel
  have opening : constantName routesOpening.toList = "router" := by decide +kernel
  rw [declaredNames_lines (inked_formed_router source content o) (isHeading_router ps).other rfl, imports, opening,
    List.filter_append, routes, List.nil_append, closing]
  rfl

/-- Of the names of a router a page can have three. -/
theorem routerNames_nodup_iff {ps : List Page} (components : (ps.map fun p => Route.component p.fileName).Nodup) :
    (routerNames ++ (ps.map fun p => Route.component p.fileName) ++ routerConstants).Nodup ↔
      ∀ p ∈ ps, Route.component p.fileName ∉ ["React", "RouterProvider", "AppRouter"] := by
  have others (p : Page) : Route.component p.fileName ∈ routerNames ++ routerConstants ↔
      Route.component p.fileName ∈ ["React", "RouterProvider", "AppRouter"] := by
    have create : Route.component p.fileName ≠ "createBrowserRouter" := pascalCase_ne _ ⟨'c', rfl, by decide⟩
    have router : Route.component p.fileName ≠ "router" := pascalCase_ne _ ⟨'r', rfl, by decide⟩
    simp [routerNames, routerConstants, create, router]
  have moved : (routerNames ++ (ps.map fun p => Route.component p.fileName) ++ routerConstants).Perm
      (routerNames ++ routerConstants ++ ps.map fun p => Route.component p.fileName) := by
    rw [List.append_assoc, List.append_assoc]
    exact List.perm_append_comm.append_left _
  have fixed : (routerNames ++ routerConstants).Nodup := by decide
  rw [moved.nodup_iff, List.nodup_append]
  constructor
  · rintro ⟨-, -, apart⟩ p mem taken
    exact apart _ ((others p).2 taken) _ (List.mem_map_of_mem mem) rfl
  · refine fun free => ⟨fixed, components, ?_⟩
    rintro n mem n' mem' rfl
    obtain ⟨p, page, rfl⟩ := List.mem_map.1 mem'
    exact free p page ((others p).1 mem)

end Router

/-- The module of each page declares different names in front of its component, and has that of the component
among them only if the page is called like the view library. The router declares its libraries, the components
and its constants: different names, unless a page is called like one of three of them. -/
structure Declares (b : Bundle) : Prop where
  modules : ∀ p ∈ b.project.pages, ∃ f names, b.files.lookup (modulePath p) = some f ∧
    declaredNames f.content = names ++ [Route.component p.fileName] ∧ names.Nodup ∧
    (Route.component p.fileName ∈ names ↔ Route.component p.fileName = "React")
  router : ∃ f, b.files.lookup "src/router/index.tsx" = some f ∧
    declaredNames f.content =
      routerNames ++ (b.project.pages.map fun p => Route.component p.fileName) ++ routerConstants ∧
    ((declaredNames f.content).Nodup ↔
      ∀ p ∈ b.project.pages, Route.component p.fileName ∉ ["React", "RouterProvider", "AppRouter"])

section Assembly

variable {form : Format.Options} {b : Bundle} {groups : List (List OutputFile)}
  (components : (b.project.pages.map fun p => Route.component p.fileName).Nodup)
  (supplied : ∀ p ∈ b.project.pages, p.root.Everywhere (·.dependency.IsSupplied))
  (named : ∀ p ∈ b.project.pages, Lifting.IsNamed p)
  (pages : PageFiles .default (.reactVite form) b.project.pages groups)
  (files : b.files = (added b groups).map fun f => (f.path, Format.formed form f))
include components supplied named pages files

theorem declares_module {p : Page} (mem : p ∈ b.project.pages) : ∃ f names,
    b.files.lookup (modulePath p) = some f ∧ declaredNames f.content = names ++ [Route.component p.fileName] ∧
    names.Nodup ∧ (Route.component p.fileName ∈ names ↔ Route.component p.fileName = "React") := by
  obtain ⟨m, ⟨log, ok⟩, there⟩ := mem_groups pages mem
  have added : moduleFile p m ∈ added b groups :=
    List.mem_append_left _ (List.mem_append_right _ there)
  have result : (PagePart.writeAll .default Handlers.default p [.styles, .markup form.lineWidth]
      (Module.new (Route.component p.fileName)) log).1 = (.ok (), m) := Except.ok.inj ok
  have stocked : Component.Stocked m := by
    have all := Component.writeAll_sources .default Handlers.default (supplied p mem) form.lineWidth
      (Route.component p.fileName) log
    rw [result] at all
    exact all.1
  have order : Component.Orderly p m := by
    have all := Component.writeAll_orderly (named p mem) .default Handlers.default form.lineWidth
      (Route.component p.fileName) log
    rwa [result] at all
  have called : m.name = Route.component p.fileName := by
    have all := Component.writeAll_name .default Handlers.default p form.lineWidth
      (Route.component p.fileName) log
    rwa [result] at all
  have component : toIdentifier ((givenText (some (Route.component p.fileName))).getD m.name) =
      Route.component p.fileName := by
    have given : (givenText (some (Route.component p.fileName))).getD m.name = Route.component p.fileName := by
      rw [givenText, Option.filter_some, called]
      split <;> rfl
    have isName : IsName (Route.component p.fileName) := isName_pascalCase p.fileName
    rw [given, toIdentifier_isName isName]
  refine ⟨_, m.headerEntries.flatMap fun e => e.2.locals, lookup_files components pages files added, ?_,
    Component.headerNames_nodup order, Component.mem_headerLocals order called⟩
  rw [declaredNames_module (fun e mem => (stocked e mem).2) rfl rfl form, component]

theorem declares_bundle : Declares b where
  modules := fun _ mem => declares_module components supplied named pages files mem
  router := by
    have text : (Step.routerFile b.project.pages).content = closedLines (routerLines b.project.pages) := rfl
    have names := declaredNames_router rfl text form
    refine ⟨_, lookup_files components pages files (routerFile_added b groups), names, ?_⟩
    rw [names]
    exact routerNames_nodup_iff components

end Assembly

/-- Whatever a schema holds that can be read, the files that are exported for it with the stack of single-page
applications declare each name once, but for the component of a page that is called like a name of a library
or like the component of the router; there are none if the page nodes bring in a fault. -/
theorem bundle_declares (o : Order) (form : Format.Options) (schema : Value) (log : List Notice) :
    let outcome := (bundle { o with catalogue := .default } (.reactVite form) schema log).1
    match Schema.read schema with
    | .error f => outcome = .error f
    | .ok ns => Job.Meets (allFaultsOf (Reading.pageRoots ns)) (fun b =>
        Reading.Named [] 0 (Reading.pageRoots ns) b.project.pages ∧ Declares b) outcome := by
  have assembled := bundle_assembled o form schema log
  cases read : Schema.read schema with
  | error f =>
    rw [read] at assembled
    exact assembled
  | ok ns =>
    rw [read] at assembled
    refine assembled.mono ?_ (Set.Subset.refl _)
    rintro b ⟨groups, names, -, given, pages, files⟩
    exact ⟨names, declares_bundle names.apart.components (fun p mem => (given p mem).1)
      (fun p mem => (given p mem).2) pages files⟩

/-- A project with a second page that is called like the view library. -/
def namesake : Value :=
  .list [.dict [("name", .str "Page")],
    .dict [("name", .str "Page"), ("props", .dict [("title", .str "React")])]]

theorem namesake_declared_twice :
    let o : Order := ⟨.default, [], .stack (.reactVite .default), .null, "app", "out"⟩
    ∃ b p f router, (bundle o (.reactVite .default) namesake []).1 = .ok b ∧ p ∈ b.project.pages ∧
      Route.component p.fileName = "React" ∧
      b.files.lookup (modulePath p) = some f ∧ ¬ (declaredNames f.content).Nodup ∧
      b.files.lookup "src/router/index.tsx" = some router ∧ ¬ (declaredNames router.content).Nodup := by
  intro o
  obtain ⟨first, second, read, roots, base, faultless⟩ : ∃ first second,
      Schema.read namesake = .ok [first, second] ∧ Reading.pageRoots [first, second] = [first, second] ∧
      Reading.pageBase second 1 = "react" ∧ ∀ n ∈ [first, second], n.Everywhere (·.isFaultless = true) := by
    refine ⟨.mk .null "Page" [] none none [], .mk .null "Page" [("title", .mk (.str "React") .none)] none none [],
      rfl, rfl, by decide +kernel, ?_⟩
    simp only [List.forall_mem_cons]
    exact ⟨.mk rfl (List.forall_mem_nil _), .mk rfl (List.forall_mem_nil _), List.forall_mem_nil _⟩
  generalize namesake = schema at read ⊢
  have declared := bundle_declares o .default schema []
  rw [← roots] at faultless
  simp only [read, allFaultsOf_eq_empty faultless] at declared
  obtain ⟨b, done, names, declares⟩ := declared.ok
  rw [roots] at names
  obtain ⟨p, page, called⟩ : ∃ p ∈ b.project.pages, Route.component p.fileName = "React" := by
    generalize b.project.pages = ps at names
    cases names with
    | @cons _ _ _ _ p ps home rest =>
      cases rest with
      | @cons _ _ _ _ q ps other _ =>
        have index : p.fileName = "index" := home.of_free List.not_mem_nil
        have react : q.fileName = "react" := by
          rw [← base]
          refine other.of_free ?_
          rw [base, index]
          decide +kernel
        refine ⟨q, by simp, ?_⟩
        rw [react]
        decide +kernel
  obtain ⟨f, ns, found, text, -, same⟩ := declares.modules p page
  obtain ⟨router, found', -, once⟩ := declares.router
  refine ⟨b, p, f, router, done, page, called, found, ?_, found', ?_⟩
  · rw [text]
    exact fun nodup => (List.nodup_append.1 nodup).2.2 _ (same.2 called) _ (List.mem_singleton_self _) rfl
  · rw [once]
    exact fun free => free p page (by simp [called])

end Export

end Pagesmith
