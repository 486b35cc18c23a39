import Pagesmith.Catalogue.Default
import Pagesmith.Proofs.Table

/-!
The packages to install for a catalogue. They are gathered in two passes: of the components that
take the same import the first one's dependency is kept, and of the kept dependencies the packages
with a version are listed. So a package is missing exactly if every import from it was first taken
by a component that gives no version.
-/

namespace Pagesmith

/-- The entry of a dependency in the table of packages: a package to install, with its version. -/
def Dependency.installed? (d : Dependency) : Option (String × String) :=
  if d.isPackage then (givenText d.version).map fun version => (d.source, version) else .none

/-- The dependency is a package to install, in a given version. -/
def Dependency.isInstallable (d : Dependency) : Bool :=
  d.isPackage && (givenText d.version).isSome

theorem Dependency.exists_installed {d : Dependency} {name : String} :
    (∃ e, d.installed? = some e ∧ e.1 = name) ↔ d.isInstallable = true ∧ d.source = name := by
  rw [installed?, isInstallable]
  cases d.isPackage with
  | false => simp
  | true => cases givenText d.version <;> simp

/-- What a component imports: the source, and the export or else the component. -/
def Material.importKey (m : Material) : String × String :=
  (m.dependency.source, (givenText m.dependency.exportName).getD m.component)

namespace Catalogue

open Table

/-- The dependency kept for an import: that of the first component that takes it. -/
def kept (c : Catalogue) (key : String × String) : Option Dependency :=
  (c.materials.find? (·.2.importKey == key)).map (·.2.dependency)

/-- The packages that are listed whatever the components need, and the one that goes with the
library. -/
def companions (c : Catalogue) : List String :=
  ["react", "react-dom"] ++ if has "antd" c.packages then [iconPackage] else []

/-- The packages that the components need, with their versions. -/
def required (c : Catalogue) : List (String × String) :=
  insertAll [] (c.dependencies.filterMap Dependency.installed?)

variable {c : Catalogue}

theorem mem_dependencies {d : Dependency} : d ∈ c.dependencies ↔ ∃ key, c.kept key = some d := by
  have lookup (key) := lookup_foldl_insertNew (fun e : String × Material => e.2.importKey)
    (fun e => e.2.dependency) c.materials key
  have distinct := nodup_foldl_insertNew (fun e : String × Material => e.2.importKey)
    (fun e => e.2.dependency) c.materials
  constructor
  · intro mem
    obtain ⟨e, kept, rfl⟩ := List.mem_map.1 mem
    exact ⟨e.1, (lookup e.1).symm.trans (lookup_of_mem distinct kept)⟩
  · rintro ⟨key, found⟩
    exact List.mem_map.2 ⟨(key, d), mem_of_lookup ((lookup key).trans found), rfl⟩

/-- A kept dependency is that of a component with this import. -/
theorem exists_of_kept {key : String × String} {d : Dependency} (h : c.kept key = some d) :
    ∃ e ∈ c.materials, e.2.importKey = key ∧ e.2.dependency = d := by
  obtain ⟨e, found, rfl⟩ := Option.map_eq_some_iff.1 h
  exact ⟨e, List.mem_of_find?_eq_some found, by simpa using List.find?_some found, rfl⟩

theorem exists_kept {e : String × Material} (mem : e ∈ c.materials) :
    ∃ d, c.kept e.2.importKey = some d := by
  have found : (c.materials.find? (·.2.importKey == e.2.importKey)).isSome :=
    List.find?_isSome.2 ⟨e, mem, beq_self_eq_true _⟩
  exact Option.isSome_iff_exists.1 (by rwa [kept, Option.isSome_map])

/-- A table of packages with the view library, and with the icons if it has the library. -/
def withCompanions (found : List (String × String)) : List (String × String) :=
  let found := insert "react-dom" "^18.0.0" (insert "react" "^18.0.0" found)
  if has "antd" found then insert iconPackage "^5.0.0" found else found

theorem packages_eq (c : Catalogue) : c.packages = withCompanions c.required := by
  refine congrArg withCompanions ?_
  rw [required, insertAll, List.foldl_filterMap]
  refine congrArg (fun f => c.dependencies.foldl f []) (funext₂ fun table d => ?_)
  rw [Dependency.installed?]
  cases d.isPackage <;> cases givenText d.version <;> rfl

theorem mem_required {name : String} :
    name ∈ c.required.map (·.1) ↔
      ∃ e ∈ c.materials, e.2.dependency.source = name ∧
        ∃ d ∈ c.kept e.2.importKey, d.isInstallable = true := by
  rw [required, mem_keys_insertAll]
  constructor
  · rintro (none | mem)
    · cases none
    · obtain ⟨entry, listed, rfl⟩ := List.mem_map.1 mem
      obtain ⟨d, mem, installed⟩ := List.mem_filterMap.1 listed
      obtain ⟨key, found⟩ := mem_dependencies.1 mem
      obtain ⟨e, there, rfl, rfl⟩ := exists_of_kept found
      obtain ⟨yes, source⟩ := Dependency.exists_installed.1 ⟨entry, installed, rfl⟩
      exact ⟨e, there, source, _, found, yes⟩
  · rintro ⟨e, -, source, d, found, yes⟩
    obtain ⟨first, -, same, rfl⟩ := exists_of_kept found
    have source : first.2.dependency.source = name := (congrArg Prod.fst same).trans source
    obtain ⟨entry, installed, rfl⟩ := Dependency.exists_installed.2 ⟨yes, source⟩
    exact .inr (List.mem_map_of_mem
      (List.mem_filterMap.2 ⟨_, mem_dependencies.2 ⟨_, found⟩, installed⟩))

theorem withCompanions_eq (found : List (String × String)) :
    withCompanions found =
      let view := insert "react-dom" "^18.0.0" (insert "react" "^18.0.0" found)
      if has "antd" found then insert iconPackage "^5.0.0" view else view := by
  rw [withCompanions, has_insert_of_ne (by decide), has_insert_of_ne (by decide)]

theorem has_library (c : Catalogue) : has "antd" c.packages = has "antd" c.required := by
  rw [packages_eq, withCompanions_eq]
  split
  · rw [has_insert_of_ne (by decide), has_insert_of_ne (by decide), has_insert_of_ne (by decide)]
  · rw [has_insert_of_ne (by decide), has_insert_of_ne (by decide)]

theorem mem_packages {name : String} :
    name ∈ c.packages.map (·.1) ↔ name ∈ c.companions ∨ name ∈ c.required.map (·.1) := by
  rw [companions, has_library, packages_eq, withCompanions_eq]
  cases has "antd" c.required with
  | true => simp [mem_keys_insert_iff, or_assoc, or_left_comm]
  | false => simp [mem_keys_insert_iff, or_assoc, or_left_comm]

theorem nodup_packages (c : Catalogue) : (c.packages.map (·.1)).Nodup := by
  have none : Keyed (fun _ => True) ([] : List (String × String)) := ⟨List.nodup_nil, by simp⟩
  have keyed : Keyed (fun _ => True) c.required := keyed_insertAll none _ fun _ _ => trivial
  have entered {es} (h : Keyed (fun _ => True) es) (name version : String) :
      Keyed (fun _ => True) (insert name version es) := h.insert trivial version
  rw [packages_eq, withCompanions]
  split
  · exact (entered (entered (entered keyed _ _) _ _) _ _).1
  · exact (entered (entered keyed _ _) _ _).1

/-- The table of packages lists each package once. Apart from the view library and the icons it
lists only packages that a component needs, and it lists the package of a component exactly if
some component of that package was the first to take its import and gives a version. -/
theorem packages_complete_iff (c : Catalogue) :
    (c.packages.map (·.1)).Nodup ∧
    (∀ name ∈ c.packages.map (·.1), name ∈ c.companions ∨
      ∃ e ∈ c.materials, e.2.dependency.isInstallable = true ∧ e.2.dependency.source = name) ∧
    ∀ e ∈ c.materials, e.2.dependency.isInstallable = true →
      (e.2.dependency.source ∈ c.packages.map (·.1) ↔ e.2.dependency.source ∈ c.companions ∨
        ∃ other ∈ c.materials, other.2.dependency.source = e.2.dependency.source ∧
          ∃ d ∈ c.kept other.2.importKey, d.isInstallable = true) := by
  refine ⟨nodup_packages c, fun name listed => (mem_packages.1 listed).imp_right fun needed => ?_,
    fun e _ _ => mem_packages.trans (or_congr_right mem_required)⟩
  obtain ⟨e, -, source, d, found, yes⟩ := mem_required.1 needed
  obtain ⟨first, there, same, rfl⟩ := exists_of_kept found
  exact ⟨first, there, yes, (congrArg Prod.fst same).trans source⟩

/-- Two components that take one import, of which only the second gives a version. -/
def twoCharts : Catalogue :=
  let chart (version : Option String) : Material :=
    plainMaterial "Chart" ⟨"charts", some "Chart", none, true, version⟩ false
  { empty with materials := [("Chart", chart none), ("NewChart", chart (some "^1.0.0"))] }

theorem twoCharts_unlisted :
    ∃ e ∈ twoCharts.materials, e.2.dependency.isInstallable = true ∧
      e.2.dependency.source ∉ twoCharts.packages.map (·.1) := by
  obtain ⟨-, -, listed⟩ := packages_complete_iff twoCharts
  refine ⟨_, List.mem_cons_of_mem _ List.mem_cons_self, by decide, fun there => ?_⟩
  have needed := (listed _ (List.mem_cons_of_mem _ List.mem_cons_self) (by decide)).1 there
  exact absurd needed (by decide)

/-- If components that take the same import agree on being installable, every package is listed. -/
theorem packages_complete_of_agree (agree : ∀ e ∈ c.materials, ∀ f ∈ c.materials,
      e.2.importKey = f.2.importKey →
        e.2.dependency.isInstallable = f.2.dependency.isInstallable) :
    ∀ e ∈ c.materials, e.2.dependency.isInstallable = true →
      e.2.dependency.source ∈ c.packages.map (·.1) := by
  intro e mem yes
  obtain ⟨d, found⟩ := exists_kept mem
  obtain ⟨first, there, same, rfl⟩ := exists_of_kept found
  exact mem_packages.2 (.inr (mem_required.2
    ⟨e, mem, rfl, _, found, (agree first there e mem same).trans yes⟩))

example : ∀ e ∈ default.materials, e.2.dependency.isInstallable = true →
    e.2.dependency.source ∈ default.packages.map (·.1) := by decide +kernel

end Catalogue

end Pagesmith
