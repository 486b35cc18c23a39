import Pagesmith.Proofs.Component.Sources
import Pagesmith.Proofs.Module.Header
import Pagesmith.Proofs.Module.Reachable

/-!
What the import header of a page's module binds. Whatever is written into the module beside its imports, the
lines of the header bind exactly what is bound in the module and what is taken from the view library and the
style sheet, all under different names.
-/

namespace Pagesmith

namespace Module
open Build Script Text

/-- All that the lines of the header bind: the names, with the sources and exports they stand for. -/
def headerBindings (m : Module) : List ((String × String) × String) := m.headerEntries.flatMap Entry.bindings

theorem headerBindings_names (m : Module) :
    m.headerBindings.map (·.2) = m.headerEntries.flatMap fun e => e.2.locals := by
  rw [headerBindings, List.map_flatMap]
  refine List.flatMap_congr fun e _ => ?_
  rw [Entry.bindings, ImportEntry.locals_eq, List.map_map]
  rfl

/-- The lines of a module bind what it takes from the view library and its style sheet, and what it imports. -/
theorem headerLocals_perm (m : Module) :
    (m.headerEntries.flatMap fun e => e.2.locals).Perm (m.fixedNames ++ m.importLocals) := by
  have imports : (m.lineEntries.flatMap fun e => e.2.locals).Perm m.importLocals := by
    have lines := (lineEntries_perm m).flatMap_right fun e => e.2.locals
    rw [List.flatMap_map] at lines
    refine lines.trans (List.Perm.flatMap_left m.imports fun e _ => ?_)
    exact ((Table.sorted_perm e.2.named).map (·.2)).append_left _
  have library : m.libraryEntry.2.locals ++ (m.stylesheetEntries.flatMap fun e => e.2.locals) = m.fixedNames := by
    have sheet : (m.stylesheetEntries.flatMap fun e => e.2.locals) =
        if (givenText m.stylesheet).isSome then ["styles"] else [] := by
      rw [stylesheetEntries]
      cases givenText m.stylesheet <;> rfl
    rw [sheet, fixedNames]
    simp only [ImportEntry.locals, libraryEntry, List.map_append, Option.toList_some, List.append_assoc]
    split <;> split <;> rfl
  rw [headerEntries, List.flatMap_cons, List.flatMap_append, ← library]
  exact (List.perm_append_comm.trans (imports.append_left _)).append_left _ |>.trans
    (List.append_assoc _ _ _ ▸ .refl _)

/-- No two names of the header are the same, if no import has a name of the view library or the style sheet. -/
theorem headerLocals_nodup {m : Module} (linked : Linked m) (apart : (m.bound.map (·.2)).Nodup)
    (fixed : ∀ n ∈ m.fixedNames, n ∉ m.bound.map (·.2)) :
    (m.headerEntries.flatMap fun e => e.2.locals).Nodup := by
  refine (headerLocals_perm m).nodup_iff.2 (List.nodup_append.2 ⟨Component.fixedNames_nodup m, ?_, ?_⟩)
  · exact linked.locals.nodup_iff.2 apart
  · rintro n mem n' mem' rfl
    exact fixed n mem (linked.locals.mem_iff.1 mem')

/-- What stands in an entry of a module is bound by its line. -/
theorem mem_headerBindings {m : Module} {b : (String × String) × String} (mem : b ∈ m.entryBindings) :
    b ∈ m.headerBindings := by
  obtain ⟨e, found, inside⟩ := List.mem_flatMap.1 mem
  have line : Entry.ordered e ∈ m.lineEntries :=
    (lineEntries_perm m).mem_iff.2 (List.mem_map_of_mem (f := Entry.ordered) found)
  refine List.mem_flatMap.2 ⟨_, List.mem_cons_of_mem _ (List.mem_append_left _ line), ?_⟩
  exact (Entry.ordered_bindings e).mem_iff.2 inside

/-- The header has the line of every entry. -/
theorem holds_line {m : Module} {e : Entry} (mem : e ∈ m.headerEntries) : Holds m.header e.line.toList := by
  have line : e.line ∈ m.importBlocks.flatten := by
    rw [importBlocks_flatten]
    exact List.mem_map_of_mem (f := Entry.line) mem
  obtain ⟨block, there, inside⟩ := List.mem_flatten.1 line
  have self : Holds e.line e.line.toList := List.infix_refl _
  exact (self.intercalate inside).intercalate (List.mem_map_of_mem there)

/-- The names that a module has from the view library and its style sheet. -/
def libraryNames : List String := ["React", "useState", "useEffect", "styles"]

/-- The entries of a module hold its bindings, all under names of their own that can stand in a tag. -/
structure WellBound (m : Module) : Prop where
  linked : Linked m
  entries : m.entryBindings.Perm m.bound
  taken : ∀ b ∈ m.bound, b.2 ∈ m.reserved
  apart : (m.bound.map (·.2)).Nodup
  library : ∀ n ∈ libraryNames, n ∈ m.reserved ∧ n ∉ m.bound.map (·.2)
  names : ∀ b ∈ m.bound, IsName b.2

theorem wellBound_new (name : String) : WellBound (new name) where
  linked := linked_new name
  entries := .refl _
  taken := by simp [new]
  apart := .nil
  library := by simp [new, libraryNames]
  names := by simp [new]

theorem WellBound.bind {m : Module} (h : WellBound m) (d : Dependency) (wish : Option String) {name : String}
    (new : m.bound.lookup (bindingKey d wish) = none) (free : name ∉ m.reserved) (isName : IsName name) :
    WellBound (m.bind d (bindingKey d wish) name) where
  linked := h.linked.bind d wish name new
  entries := (entryBindings_bind h.linked new).trans (h.entries.append_right _)
  taken := taken_bind d _ h.taken
  apart := apart_bind d _ free h.taken h.apart
  library n mem := by
    obtain ⟨taken, other⟩ := h.library n mem
    exact ⟨reserve_subset [name] m taken, unbound_bind d _ free taken other⟩
  names := by
    simp only [Module.bind, List.mem_append, List.mem_singleton]
    rintro b (mem | rfl)
    · exact h.names b mem
    · exact isName

theorem addImport_wellBound (d : Dependency) (wish : Option String) : Keeps WellBound (addImport d wish) := by
  refine fun m h => (addImport_ensures d wish m).mono ?_
  rintro r m' ⟨name, -, ⟨-, -, rfl⟩ | ⟨-, -, rfl⟩ | ⟨-, new, first, rfl⟩⟩
  · exact h
  · exact h
  · exact h.bind d wish new first.free (first.isName (isName_desiredName d wish))

theorem WellBound.header_nodup {m : Module} (h : WellBound m) : (m.headerBindings.map (·.2)).Nodup := by
  rw [headerBindings_names]
  refine headerLocals_nodup h.linked h.apart fun n mem => (h.library n ?_).2
  obtain rfl | rfl | rfl | rfl := Component.mem_fixedNames mem <;> simp [libraryNames]

/-- Where all exports are identifiers, the text of a module is read as saying what its header binds. -/
theorem WellBound.readBindings {m : Module} (h : WellBound m) (exports : ∀ b ∈ m.bound, IsName b.1.2)
    (title : Option String) :
    ∃ lines, readImports (m.text title) = some lines ∧ lines.flatMap ImportLine.bindings = m.headerBindings := by
  have named : ∀ e : Entry, e ∈ m.imports → e.Named := fun e mem =>
    named_of_bound (fun b inside => h.entries.mem_iff.1 inside) (fun b mem => ⟨exports b mem, h.names b mem⟩) mem
  refine ⟨_, readImports_text named title, ?_⟩
  rw [List.flatMap_map]
  exact List.flatMap_congr fun e _ => Entry.said_bindings e

end Module

namespace Component
open Build Pagesmith.Module

theorem outlastsCode_wellBound : OutlastsCode WellBound := fun _ _ _ _ _ _ more h =>
  { h with
    linked := h.linked.of_eq rfl rfl
    taken := fun b mem => more (h.taken b mem)
    library := fun n mem => ⟨more (h.library n mem).1, (h.library n mem).2⟩ }

theorem lasts_wellBound : Lasts WellBound := by
  intro m m' operation h
  have code := outlastsCode_wellBound
  cases operation with
  | addImport d wish log => exact addImport_wellBound d wish m h log
  | uniqueName base log => exact code m _ m.states m.effects m.methods m.markup (reserve_subset _ m) h
  | addState name initial log => exact code.addState name initial m h log
  | addMethod name text => exact code.addMethod name text h
  | addEffect text =>
    rw [Module.addEffect]
    split
    · exact h
    · exact code m m.reserved m.states _ m.methods m.markup (List.Subset.refl _) h
  | addClass | setStylesheet => exact { h with linked := h.linked.of_eq rfl rfl }
  | setMarkup markup => exact code m m.reserved m.states m.effects m.methods _ (List.Subset.refl _) h

end Component

end Pagesmith
