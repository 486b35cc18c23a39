import Pagesmith.Proofs.Bundle
import Pagesmith.Proofs.Format.Manifest
import Pagesmith.Proofs.Scaffold.Router
import Pagesmith.Proofs.Table

/-!
What the steps of the scaffold make. Every step has its turn in its phase. No step fails; what it makes hangs on the
project and its name alone, and not on the files that are there before it. The package is read back: whatever form
its text is brought into, it lists the packages that the components need and the core ones.
-/

namespace Pagesmith.Scaffold

section Order

variable {α : Type} {weightOf : α → Weight}

theorem place_perm (x : α) (steps : List α) : (ordered.place weightOf x steps).Perm (x :: steps) := by
  induction steps with
  | nil => exact .refl _
  | cons y r ih =>
    rw [ordered.place]
    split
    · exact .refl _
    · exact (ih.cons y).trans (.swap x y r)

/-- Ordering the steps of a phase loses none and adds none. -/
theorem ordered_perm (phaseOf : α → String) (phase : String) (steps : List α) :
    (ordered phaseOf weightOf phase steps).Perm (steps.filter (phaseOf · == phase)) := by
  have placed (steps done : List α) :
      (steps.foldl (fun done x => ordered.place weightOf x done) done).Perm (steps ++ done) := by
    induction steps generalizing done with
    | nil => exact .refl _
    | cons x r ih => exact (ih _).trans (((place_perm x done).append_left r).trans List.perm_middle)
  have all := placed (steps.filter (phaseOf · == phase)) []
  rwa [List.append_nil] at all

end Order

theorem obstacles_textTable (entries : List (String × String)) :
    (textTable entries).obstacles = [] := by
  change Value.obstaclesOfEntries (entries.map fun e => (e.1, .str e.2)) = []
  induction entries with
  | nil => rfl
  | cons e r ih => exact ih

theorem manifestOf_clean {v : Value} (clean : v.obstacles = []) :
    Format.manifestOf v = .ok (Format.manifestText 2 v) := by
  rw [Format.manifestOf, clean]
  rfl

theorem obstacles_package (name : String) (components : List (String × String)) :
    (package name components).obstacles = [] := by
  have tables := obstacles_textTable
  simp [package, Value.obstacles, Value.obstaclesOfEntries, tables]

namespace Step

/-- The files that a step makes. -/
def made (b : Bundle) (s : Step) : List OutputFile :=
  match s.files b with
  | .ok fs => fs
  | .error _ => []

/-- Where the files of a step are. -/
def places : Step → List String
  | compiler => ["tsconfig.json", "tsconfig.node.json"]
  | tool _ => ["vite.config.ts"]
  | ignored => [".gitignore"]
  | document => ["index.html"]
  | environment => ["src/vite-env.d.ts"]
  | globalStyle => ["src/global.scss"]
  | components => ["src/components/Page.tsx", "src/components/PageHeader.tsx", "src/components/index.ts"]
  | router => ["src/router/index.tsx"]
  | entry => ["src/App.tsx", "src/main.tsx"]
  | package => ["package.json"]

variable {s : Step} {b : Bundle}

/-- The module of the routes of a project. -/
def routerFile (ps : List Page) : OutputFile :=
  .ofPath "src/router/index.tsx" (closedLines (routerLines ps)) .tsx

theorem files_router (b : Bundle) : router.files b = .ok [routerFile b.project.pages] := by
  rw [files, router_fill]
  rfl

/-- The description of the package of a project. -/
def packageFile (b : Bundle) : OutputFile := .ofPath "package.json"
  (Format.manifestText 2 (Scaffold.package b.name b.project.manifest)) .json

theorem files_package (b : Bundle) : package.files b = .ok [packageFile b] := by
  rw [files, manifestOf_clean (obstacles_package _ _)]
  rfl

theorem files_tool (b : Bundle) :
    ∃ text, (tool defaultPort).files b = .ok [.ofPath "vite.config.ts" text .ts] := by
  have short : Value.isLongNumber 3000 = false := Value.isLongNumber_of_lt (k := 4) (by decide) (by decide)
  have port : (Value.int 3000).text? = .ok (Value.int 3000).text := Value.text?_short short
  obtain ⟨text, filled⟩ : ∃ text, toolSettings.fill [("port", .int 3000)] = .ok text :=
    ⟨_, fillAll_cons rfl (fillAll_cons rfl (fillAll_cons port (fillAll_cons rfl rfl)))⟩
  refine ⟨text, ?_⟩
  change (do pure [OutputFile.ofPath "vite.config.ts" (← toolSettings.fill [("port", .int 3000)]) .ts]) = _
  rw [filled]
  rfl

/-- No step fails, and each has its files in their places. -/
theorem files_places (known : s ∈ all) (b : Bundle) :
    ∃ fs, s.files b = .ok fs ∧ fs.map (·.path) = s.places := by
  cases s with
  | tool port =>
    -- The port is part of the step, but only the step with the default port is ever taken.
    obtain rfl : port = defaultPort := by simpa [all] using known
    obtain ⟨text, made⟩ := files_tool b
    exact ⟨_, made, rfl⟩
  | router => exact ⟨_, files_router b, rfl⟩
  | package => exact ⟨_, files_package b, rfl⟩
  | compiler | ignored | document | environment | globalStyle | components | entry =>
    exact ⟨_, rfl, rfl⟩

theorem files_made (known : s ∈ all) (b : Bundle) : s.files b = .ok (s.made b) := by
  obtain ⟨fs, made, -⟩ := files_places known b
  rw [Step.made, made]

theorem made_places (known : s ∈ all) (b : Bundle) : (s.made b).map (·.path) = s.places := by
  obtain ⟨fs, made, places⟩ := files_places known b
  rw [Step.made, made, places]

theorem mem_ofPhase {phase : String} {steps : List Step} :
    s ∈ ofPhase phase steps ↔ s ∈ steps ∧ s.phase = phase := by
  rw [ofPhase, (ordered_perm _ _ _).mem_iff, List.mem_filter, beq_iff_eq]

theorem made_router (b : Bundle) : made b router = [routerFile b.project.pages] := by
  rw [made, files_router]

theorem made_package (b : Bundle) : made b package = [packageFile b] := by
  rw [made, files_package]

/-- What a step makes does not hang on the files that are there. -/
theorem made_files (s : Step) {b b' : Bundle} (project : b'.project = b.project)
    (name : b'.name = b.name) : s.made b' = s.made b := by
  obtain ⟨_, _, files, distinct⟩ := b
  obtain ⟨_, _, files', distinct'⟩ := b'
  obtain rfl := project
  obtain rfl := name
  cases s <;> rfl

theorem run_ends (known : s ∈ all) (b : Bundle) : (s.run b).Ends (b.withFiles (s.made b)) :=
  .bind (.ofExcept (files_made known b)) (Bundle.addAll_ends _ _)

end Step

section Package
open Value

/-- The packages that a package needs to run, as its text lists them. -/
def dependencyNames (text : String) : Option (List String) :=
  match ofJson? text with
  | .ok v =>
    (((v.entries?.getD []).lookup "dependencies").bind Value.entries?).map fun es => es.map (·.1)
  | .error _ => none

theorem writes_textTable {entries : List (String × String)} (distinct : (entries.map (·.1)).Nodup)
    (limit : Option Nat) (step depth : Nat) :
    Reader.Writes limit (textTable entries) ((textTable entries).indented step depth).toList := by
  refine writes_indented_dict ?_ ?_
  · rw [List.map_map]
    exact distinct
  · intro e mem
    obtain ⟨x, -, rfl⟩ := List.mem_map.1 mem
    exact writes_jsonString limit x.2

theorem nodup_packageTable {components : List (String × String)}
    (distinct : (components.map (·.1)).Nodup) : ((packageTable components).map (·.1)).Nodup := by
  have keyed : Table.Keyed (fun _ => True) components := ⟨distinct, fun _ _ => trivial⟩
  have all := Table.keyed_insertAll keyed corePackages fun _ _ => trivial
  exact ((Table.sorted_perm _).map _).nodup_iff.2 all.1

theorem mem_packageTable {components : List (String × String)} {name : String} :
    name ∈ (packageTable components).map (·.1) ↔
      name ∈ components.map (·.1) ∨ name ∈ corePackages.map (·.1) := by
  rw [packageTable, ((Table.sorted_perm _).map _).mem_iff, Table.mem_keys_insertAll]

theorem isWritten_package {components : List (String × String)}
    (distinct : (components.map (·.1)).Nodup) (name : String) :
    Format.IsWritten (package name components) := by
  intro indent
  have isPrivate : Reader.Writes (some digitLimit) (.bool true) "true".toList := .scalar rfl
  refine writes_indented_dict (by simp) ?_
  simp only [List.forall_mem_cons]
  exact ⟨writes_jsonString _ _, by simpa [indented] using isPrivate, writes_jsonString _ _,
    writes_jsonString _ _, writes_textTable (by decide) _ _ _,
    writes_textTable (nodup_packageTable distinct) _ _ _, writes_textTable (by decide) _ _ _,
    by simp⟩

theorem dependencyNames_formed {components : List (String × String)}
    (distinct : (components.map (·.1)).Nodup) (name : String) {f : OutputFile}
    (kind : f.kind.category = .manifest)
    (text : f.content = Format.manifestText 2 (package name components)) (o : Format.Options) :
    dependencyNames (Format.formed o f).content =
      some ((packageTable components).map (·.1)) := by
  have free : .circular ∉ (package name components).obstacles := by simp [obstacles_package]
  have table : .circular ∉ (textTable (packageTable components)).obstacles := by simp [obstacles_textTable]
  rw [dependencyNames, Format.ofJson?_formed kind text (isWritten_package distinct name) o]
  change ((((package name components).entries?.getD []).lookup "dependencies").bind _).map _ = _
  rw [package, entries?_dict free]
  change ((textTable (packageTable components)).entries?).map _ = _
  rw [textTable, entries?_dict table, Option.map_some, List.map_map]
  rfl

end Package

end Pagesmith.Scaffold
