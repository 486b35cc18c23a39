import Pagesmith.Proofs.Module.Names
import Pagesmith.Proofs.Reading.Roots
import Pagesmith.Proofs.Text.Pascal
import Pagesmith.Scaffold.Route

/-!
File names of pages. A page is called by the first of its candidates whose component name no page
before it has. Numbered candidates have different component names, so there always is one, and the
pages have file names, component names, folders and routes of their own.
-/

namespace Pagesmith.Reading
open Pagesmith.Module

/-- The name is the first candidate whose component name is not used. -/
def IsFirstUnused (used : List String) (base name : String) : Prop :=
  ∃ k, name = candidate base k ∧ Route.component name ∉ used ∧
    ∀ j < k, Route.component (candidate base j) ∈ used

theorem IsFirstUnused.of_free {used : List String} {base name : String} (h : IsFirstUnused used base name)
    (free : Route.component base ∉ used) : name = base := by
  obtain ⟨k, rfl, -, before⟩ := h
  cases k with
  | zero => rfl
  | succ k => exact absurd (before 0 (by omega)) free

theorem numberedName_eq (used : List String) (base : String) (more counter : Nat) :
    numberedName used base more counter = numbered base
      (search (fun i => used.contains (Route.component (numbered base i))) more counter) := by
  induction more generalizing counter with
  | zero => rfl
  | succ more ih =>
    rw [numberedName, search, ih]
    exact (apply_ite (numbered base) _ _ _).symm

theorem component_numbered_inj {base : String} {i j : Nat}
    (same : Route.component (numbered base i) = Route.component (numbered base j)) : i = j :=
  Text.pascalCase_numbered_inj same

/-- The search for a file name ends with the first candidate that will do. -/
theorem pageFileName_first (used : List String) (base : String) :
    IsFirstUnused used base (pageFileName used base) := by
  rw [pageFileName, ← Route.component]
  split
  case isFalse free => exact ⟨0, rfl, by simpa using free, by simp⟩
  case isTrue base_used =>
    -- Numbers give different component names, so one of them is free before the search runs out.
    obtain ⟨k, found, free, before⟩ := search_unused (fun _ _ => component_numbered_inj) used
    rw [numberedName_eq, found]
    refine ⟨k + 1, rfl, free, fun j less => ?_⟩
    cases j with
    | zero => simpa [candidate] using base_used
    | succ j => exact before j (by omega)

/-- Every page has the first unused file name for its node, counted from `index` on; `used` are the
component names taken before. -/
inductive Named : (used : List String) → (index : Nat) → List EditorNode → List Page → Prop
  | nil {used : List String} {index : Nat} : Named used index [] []
  | cons {used : List String} {index : Nat} {n : EditorNode} {r : List EditorNode} {p : Page}
    {ps : List Page} (first : IsFirstUnused used (pageBase n index) p.fileName)
    (rest : Named (Route.component p.fileName :: used) (index + 1) r ps) :
    Named used index (n :: r) (p :: ps)

theorem pages_fileNames (c : Catalogue) (used : List String) (index : Nat) (ns : List EditorNode) :
    (pages c used index ns).Yields (Named used index ns) := by
  induction ns generalizing used index with
  | nil => exact .pure .nil
  | cons n r ih =>
    refine .bind (.any _) fun found _ => ?_
    exact .bind (ih _ _) fun ps rest => .pure (.cons (pageFileName_first _ _) rest)

/-- The pages of a schema have the first unused file names for its roots. -/
theorem project_fileNames (c : Catalogue) (schema : Value) :
    (project c schema).Yields fun p =>
      ∃ ns, Schema.read schema = .ok ns ∧ Named [] 0 (pageRoots ns) p.pages :=
  project_yields (pages_fileNames c [] 0)

variable {used : List String} {index : Nat} {ns : List EditorNode} {ps : List Page}

/-- The names stay if each page keeps its own. -/
theorem Named.map {f : Page → Page} (kept : ∀ p, (f p).fileName = p.fileName)
    (h : Named used index ns ps) : Named used index ns (ps.map f) := by
  induction h with
  | nil => exact .nil
  | @cons used index n r p ps first rest ih =>
    rw [← kept] at first
    refine .cons first ?_
    rwa [kept]

theorem Named.components (h : Named used index ns ps) :
    (ps.map fun p => Route.component p.fileName).Nodup ∧
      ∀ p ∈ ps, Route.component p.fileName ∉ used := by
  induction h with
  | nil => exact ⟨List.nodup_nil, fun p mem => nomatch mem⟩
  | @cons used index n r p ps first rest ih =>
    obtain ⟨apart, free⟩ := ih
    obtain ⟨k, -, unused, -⟩ := first
    have below : Route.component p.fileName ∉ ps.map fun p => Route.component p.fileName := by
      intro mem
      obtain ⟨q, there, same⟩ := List.mem_map.1 mem
      exact free q there (same ▸ List.mem_cons_self)
    refine ⟨List.nodup_cons.2 ⟨below, apart⟩, List.forall_mem_cons.2 ⟨unused, fun q mem => ?_⟩⟩
    exact fun taken => free q mem (List.mem_cons_of_mem _ taken)

theorem pageBase_ne_empty (n : EditorNode) (index : Nat) : pageBase n index ≠ "" := by
  have slugged {key s : String} (h : slugProp? n key = some s) : s ≠ "" := by
    rw [slugProp?] at h
    split at h
    · simpa using (Option.filter_eq_some_iff.1 h).2
    · cases h
  have numbered : "page_" ++ toString index ≠ "" := by simp
  rw [pageBase]
  split
  · decide
  · split
    · next found => exact slugged found
    · cases found : slugProp? n "title" with
      | none => exact numbered
      | some s => exact slugged found

theorem candidate_ne_empty {base : String} (some : base ≠ "") (k : Nat) :
    candidate base k ≠ "" := by
  cases k with
  | zero => exact some
  | succ k => simp [candidate, numbered]

theorem Named.ne_empty (h : Named used index ns ps) : ∀ p ∈ ps, p.fileName ≠ "" := by
  induction h with
  | nil => exact fun p mem => nomatch mem
  | cons first rest ih =>
    obtain ⟨k, name, -⟩ := first
    refine List.forall_mem_cons.2 ⟨?_, ih⟩
    rw [name]
    exact candidate_ne_empty (pageBase_ne_empty _ _) k

theorem path_eq_root {name : String} (some : name ≠ "") :
    Route.path name = "/" ↔ name = "index" := by
  rw [Route.path]
  split
  · next index => simpa using index
  · next other => simpa [← String.toList_inj, some] using other

theorem path_inj {name name' : String} (some : name ≠ "") (some' : name' ≠ "")
    (same : Route.path name = Route.path name') : name = name' := by
  by_cases index : name = "index"
  · rw [index, (path_eq_root some').1 (same ▸ (path_eq_root some).2 index)]
  · have other : name' ≠ "index" := fun index' =>
      index ((path_eq_root some).1 (same ▸ (path_eq_root some').2 index'))
    simpa [Route.path, index, other, ← String.toList_inj] using same

/-- The first page is the index, and no other is. -/
theorem Named.eq_index (h : Named [] 0 ns ps) :
    ∀ i p, ps[i]? = some p → (p.fileName = "index" ↔ i = 0) := by
  cases h with
  | nil => exact fun i p mem => nomatch mem
  | @cons _ _ n r p ps first rest =>
    obtain ⟨k, name, -, before⟩ := first
    have own : p.fileName = "index" := by
      cases k with
      | zero => exact name
      | succ k => cases before 0 (by omega)
    intro i q there
    cases i with
    | zero =>
      obtain rfl := Option.some.inj there
      exact iff_of_true own rfl
    | succ i =>
      have free := rest.components.2 q (List.mem_of_getElem? there)
      refine iff_of_false (fun index => free ?_) (by omega)
      rw [own, index]
      exact List.mem_cons_self

/-- The pages differ in all the names they go by, and the first of them, and no other, is at the
root. -/
structure Apart (ps : List Page) : Prop where
  fileNames : (ps.map (·.fileName)).Nodup
  components : (ps.map fun p => Route.component p.fileName).Nodup
  directories : (ps.map fun p => Route.directory p.fileName).Nodup
  paths : (ps.map fun p => Route.path p.fileName).Nodup
  root : ∀ i p, ps[i]? = some p → (Route.path p.fileName = "/" ↔ i = 0)

theorem Named.apart (h : Named [] 0 ns ps) : Apart ps := by
  have components := h.components.1
  have fileNames : (ps.map (·.fileName)).Nodup := by
    refine List.Nodup.of_map Route.component ?_
    rwa [List.map_map]
  refine ⟨fileNames, components, ?_, ?_, fun i p there => ?_⟩
  · have inj : Function.Injective ("src/pages/" ++ ·) := fun s t same => by simpa using same
    have folders := components.map inj
    rwa [List.map_map] at folders
  -- The route of the index is the root and every other route is the name behind a slash, so a route
  -- gives the name away as long as no name is empty.
  · refine List.Nodup.map_on (fun p mem q mem' same => ?_) (List.Nodup.of_map _ fileNames)
    have name := path_inj (h.ne_empty p mem) (h.ne_empty q mem') same
    exact List.inj_on_of_nodup_map fileNames mem mem' name
  · rw [path_eq_root (h.ne_empty p (List.mem_of_getElem? there))]
    exact h.eq_index i p there

end Pagesmith.Reading
