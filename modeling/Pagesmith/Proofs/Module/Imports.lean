import Pagesmith.Proofs.Module.Names

/-!
The names in the import lines of a module are those of its bindings: each binding stands in the
entry of its source once, as the main import or as a named one.
-/

namespace Pagesmith

/-- The names that an import line binds. -/
def ImportEntry.locals (e : ImportEntry) : List String :=
  e.main.toList ++ e.named.map (·.2)

/-- The exports that an import line binds, with their names. -/
def ImportEntry.bindings (e : ImportEntry) : List (String × String) :=
  e.main.toList.map (Module.defaultExport, ·) ++ e.named

theorem ImportEntry.locals_eq (e : ImportEntry) : e.locals = e.bindings.map (·.2) := by
  simp [locals, bindings]

namespace Module
open Build

/-- The names that the import lines bind. -/
def importLocals (m : Module) : List String := m.imports.flatMap fun e => e.2.locals

/-- What is taken from a source. -/
def entryOf (m : Module) (source : String) : ImportEntry :=
  (m.imports.lookup source).getD ⟨none, []⟩

/-- The import lines and the bindings have the same names, and what stands in a line is bound. -/
structure Linked (m : Module) : Prop where
  locals : m.importLocals.Perm (m.bound.map (·.2))
  main : ∀ s, (m.entryOf s).main.isSome → (s, defaultExport) ∈ m.bound.map (·.1)
  named : ∀ s, ∀ x ∈ (m.entryOf s).named.map (·.1), (s, x) ∈ m.bound.map (·.1)

theorem linked_new (name : String) : Linked (new name) where
  locals := .refl _
  main := by simp [new, entryOf]
  named := by simp [new, entryOf]

/-- Only the import lines and the bindings of a module matter. -/
theorem Linked.of_eq {m m' : Module} (h : Linked m) (imports : m'.imports = m.imports)
    (bound : m'.bound = m.bound) : Linked m' := by
  have entries (source : String) : m'.entryOf source = m.entryOf source := by
    rw [entryOf, entryOf, imports]
  constructor
  · rw [importLocals, imports, bound]
    exact h.locals
  · simp only [entries, bound]
    exact h.main
  · simp only [entries, bound]
    exact h.named

theorem flatMap_insert_perm {α β : Type} (f : String → α → List β) {key : String}
    {value start : α} {more : β} (es : List (String × α)) (empty : f key start = [])
    (step : (f key value).Perm (f key ((es.lookup key).getD start) ++ [more])) :
    ((Table.insert key value es).flatMap fun e => f e.1 e.2).Perm
      ((es.flatMap fun e => f e.1 e.2) ++ [more]) := by
  induction es with
  | nil => simpa [Table.insert, empty] using step
  | cons e r ih =>
    obtain ⟨k, v⟩ := e
    rw [Table.insert]
    by_cases same : k = key
    · subst same
      simp only [List.lookup_cons_self, Option.getD_some] at step
      simp only [beq_self_eq_true, if_true, List.flatMap_cons]
      refine (step.append_right _).trans ?_
      simp only [List.append_assoc]
      exact List.perm_append_comm.append_left _
    · have other : (key == k) = false := by simpa using Ne.symm same
      have other' : (k == key) = false := by simpa using same
      rw [List.lookup_cons, other] at step
      simp only [other', Bool.false_eq_true, if_false, List.flatMap_cons, List.append_assoc]
      exact (ih step).append_left _

/-- One more binding stands in the entry of its source beside the others. -/
theorem bindings_add {e : ImportEntry} {d : Dependency} {x : String} (name : String)
    (named : x ∉ e.named.map (·.1))
    (main : d.destructured = false → x = defaultExport ∧ e.main = none) :
    (ImportEntry.add e d x name).bindings.Perm (e.bindings ++ [(x, name)]) := by
  rw [ImportEntry.add]
  split
  · rw [Table.insert_new named]
    simp [ImportEntry.bindings]
  · next whole =>
    obtain ⟨rfl, absent⟩ := main (by simpa using whole)
    simp only [ImportEntry.bindings, absent, Option.none_or, Option.toList_some,
      Option.toList_none, List.map_cons, List.map_nil, List.nil_append]
    exact List.perm_append_comm

/-- One more binding is one more name in the entry of its source. -/
theorem locals_add {e : ImportEntry} {d : Dependency} {x : String} (name : String)
    (named : x ∉ e.named.map (·.1))
    (main : d.destructured = false → x = defaultExport ∧ e.main = none) :
    (ImportEntry.add e d x name).locals.Perm (e.locals ++ [name]) := by
  rw [ImportEntry.locals_eq, ImportEntry.locals_eq]
  simpa using (bindings_add name named main).map (·.2)

theorem not_bound {m : Module} {key : String × String} (new : m.bound.lookup key = none) :
    key ∉ m.bound.map (·.1) := by
  intro mem
  obtain ⟨b, found, rfl⟩ := List.mem_map.1 mem
  have known : (m.bound.lookup b.1).isSome = true := List.lookup_isSome_iff.2 ⟨b, found, by simp⟩
  rw [new] at known
  contradiction

theorem entryOf_bind (m : Module) (d : Dependency) (key : String × String) (name s : String) :
    (m.bind d key name).entryOf s =
      if s = d.source then ImportEntry.add (m.entryOf d.source) d key.2 name else m.entryOf s := by
  simp only [entryOf, Module.bind, Table.lookup_insert, beq_iff_eq]
  split <;> rfl

theorem bindingKey_main {d : Dependency} (wish : Option String) (main : d.destructured = false) :
    bindingKey d wish = (d.source, defaultExport) := by
  simp [bindingKey, exportOf, main]

/-- The entry of a source does not have what is not bound. -/
theorem Linked.absent {m : Module} (h : Linked m) {d : Dependency} {wish : Option String}
    (new : m.bound.lookup (bindingKey d wish) = none) :
    (bindingKey d wish).2 ∉ (m.entryOf d.source).named.map (·.1) ∧
      (d.destructured = false →
        (bindingKey d wish).2 = defaultExport ∧ (m.entryOf d.source).main = none) := by
  have absent := not_bound new
  refine ⟨fun mem => absent (h.named d.source _ mem), fun main => ?_⟩
  have key := bindingKey_main wish main
  refine ⟨congrArg Prod.snd key, ?_⟩
  by_contra given
  exact absent (key ▸ h.main d.source (Option.isSome_iff_ne_none.2 given))

theorem Linked.bind {m : Module} (h : Linked m) (d : Dependency) (wish : Option String)
    (name : String) (new : m.bound.lookup (bindingKey d wish) = none) :
    Linked (m.bind d (bindingKey d wish) name) := by
  obtain ⟨named, main⟩ := h.absent new
  have older {k : String × String} (mem : k ∈ m.bound.map (·.1)) :
      k ∈ (m.bind d (bindingKey d wish) name).bound.map (·.1) := by
    simp only [Module.bind, List.map_append]
    exact List.mem_append_left _ mem
  have newest : bindingKey d wish ∈ (m.bind d (bindingKey d wish) name).bound.map (·.1) := by
    simp [Module.bind]
  -- The key was new, so the entry of its source gets one local name more and loses none.
  refine ⟨?_, ?_, ?_⟩
  · have more := flatMap_insert_perm (fun _ => ImportEntry.locals) m.imports rfl
      (locals_add name named main)
    have bound : (m.bind d (bindingKey d wish) name).bound.map (·.2) =
        m.bound.map (·.2) ++ [name] := by
      simp [Module.bind]
    rw [bound]
    exact more.trans (h.locals.append_right _)
  · intro s given
    rw [entryOf_bind] at given
    split at given
    · next same =>
      subst same
      rw [ImportEntry.add] at given
      split at given
      · exact older (h.main d.source given)
      · next plain => exact bindingKey_main wish (by simpa using plain) ▸ newest
    · exact older (h.main s given)
  · intro s x mem
    rw [entryOf_bind] at mem
    split at mem
    · next same =>
      subst same
      rw [ImportEntry.add] at mem
      split at mem
      · obtain rfl | mem := Table.mem_keys_insert mem
        · exact newest
        · exact older (h.named d.source x mem)
      · exact older (h.named d.source x mem)
    · exact older (h.named s x mem)

end Module

end Pagesmith
