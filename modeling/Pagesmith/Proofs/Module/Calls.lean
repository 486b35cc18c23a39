import Pagesmith.Proofs.Module.Names

/-!
Sequences of calls that take names in a module. Whatever calls were made before, a new name is an
identifier that nothing else in the module has, and two imports share a name exactly when they are
one binding.
-/

namespace Pagesmith.Module
open Build Text

/-- A call that takes names. -/
inductive Call where
  | addImport (d : Dependency) (wish : Option String)
  | uniqueName (base : String)
  | addState (name : String) (initial : Value)
  | addMethod (name code : String)

/-- What a call does; its result is the name it gives out, if it gives one. -/
def Call.build : Call → Build (Option String)
  | .addImport d wish => do
    let name ← Module.addImport d wish
    pure (some name)
  | .uniqueName base => do
    let name ← Module.uniqueName base
    pure (some name)
  | .addState name initial => do
    Module.addState name initial
    pure none
  | .addMethod name code => do
    modify (Module.addMethod name code)
    pure none

/-- A call that was made, with the names that were taken before it and its outcome. -/
structure Event where
  call : Call
  taken : List String
  outcome : Except Fault (Option String)

/-- Calls made one after the other; one that fails does not stop those behind it. -/
def perform : List Call → Module → List Notice → List Event
  | [], _, _ => []
  | c :: r, m, log =>
    let ((outcome, m'), log') := c.build m log
    ⟨c, m.reserved, outcome⟩ :: perform r m' log'

namespace Event

/-- The name that was made unique. -/
def unique? (e : Event) : Option String :=
  match e.call, e.outcome with
  | .uniqueName _, .ok name => name
  | _, _ => none

/-- The binding of an import with a source, and its name. -/
def imported? (e : Event) : Option ((String × String) × String) :=
  match e.call, e.outcome with
  | .addImport d wish, .ok (some name) =>
    if d.source == "" then none else some (bindingKey d wish, name)
  | _, _ => none

/-- The names that were declared. -/
def declared (e : Event) : List String :=
  match e.call with
  | .addState name _ => [name, setterName name]
  | .addMethod name _ => [name]
  | _ => []

/-- The call came to an end, with a name where it has to give one. -/
def Answers (e : Event) : Prop :=
  match e.call with
  | .addImport .. => ∃ n, e.outcome = .ok (some n)
  | .uniqueName base =>
    ∃ n, e.outcome = .ok (some n) ∧ IsName n ∧ IsFirstFree e.taken (toIdentifier base) n
  | .addState .. => e.outcome = .ok none ∨ ∃ f ∈ Script.literalFaults, e.outcome = .error f
  | .addMethod .. => e.outcome = .ok none

/-- The two events, the second one after the first, keep their names apart. -/
def Apart (e f : Event) : Prop :=
  (∀ n ∈ f.unique?, n ∉ e.unique? ∧ n ∉ e.declared ∧ ∀ b ∈ e.imported?, b.2 ≠ n) ∧
  (∀ n ∈ e.unique?, ∀ b ∈ f.imported?, b.2 ≠ n) ∧
  ∀ b ∈ e.imported?, ∀ b' ∈ f.imported?, b.2 = b'.2 ↔ b.1 = b'.1

/-- What a call leaves behind in the module. -/
structure Leaves (e : Event) (m m' : Module) : Prop where
  answers : e.Answers
  unique : ∀ n ∈ e.unique?, n ∉ m.reserved ∧ n ∈ m'.reserved ∧ m'.bound = m.bound
  imported : ∀ b ∈ e.imported?, m'.bound.lookup b.1 = some b.2
  declared : ∀ n ∈ e.declared, n ∈ m'.reserved

end Event

/-- Names stay taken, bindings keep their names, and new bindings have new names. -/
structure Grows (m m' : Module) : Prop where
  taken : m.reserved ⊆ m'.reserved
  kept : ∀ k n, m.bound.lookup k = some n → m'.bound.lookup k = some n
  fresh : ∀ k n, m'.bound.lookup k = some n →
    m.bound.lookup k = some n ∨ m.bound.lookup k = none ∧ n ∉ m.reserved

theorem grows_same {m m' : Module} (taken : m.reserved ⊆ m'.reserved) (same : m'.bound = m.bound) :
    Grows m m' where
  taken := taken
  kept := fun _ _ found => same ▸ found
  fresh := fun _ _ found => .inl (same ▸ found)

theorem grows_bind {m : Module} (d : Dependency) (key : String × String) {name : String}
    (free : name ∉ m.reserved) : Grows m (m.bind d key name) where
  taken := reserve_subset [name] m
  kept := by
    intro k n found
    simp [bind, List.lookup_append, found]
  fresh := by
    intro k n found
    simp only [bind, List.lookup_append, Option.or_eq_some_iff] at found
    obtain found | ⟨absent, found⟩ := found
    · exact .inl found
    · obtain ⟨rfl, rfl⟩ : (k, n) = (key, name) := List.mem_singleton.1 (Table.mem_of_lookup found)
      exact .inr ⟨absent, free⟩

theorem lookup_bind {m : Module} (d : Dependency) {key : String × String} {name : String}
    (new : m.bound.lookup key = none) : (m.bind d key name).bound.lookup key = some name := by
  simp [bind, List.lookup_append, new]

theorem imported_given (d : Dependency) (wish : Option String) (taken : List String)
    (name : String) : ∀ b ∈ Event.imported? ⟨.addImport d wish, taken, .ok (some name)⟩,
      d.source ≠ "" ∧ b = (bindingKey d wish, name) := by
  intro b mem
  simp only [Event.imported?, Option.mem_def] at mem
  split at mem
  · contradiction
  · next named => exact ⟨by simpa using named, (Option.some.inj mem).symm⟩

/-- One call: the module stays sound and grows, and the names of the call are in it. -/
theorem Call.build_ensures (c : Call) {m : Module} (h : Sound m) :
    c.build.Ensures m fun r m' => Sound m' ∧ Grows m m' ∧ Event.Leaves ⟨c, m.reserved, r⟩ m m' := by
  cases c with
  | addImport d wish =>
    refine .bind ((h.addImport d wish).and (addImport_ensures d wish m) |>.mono ?_)
    rintro _ m' ⟨sound, name, rfl, cases⟩
    have given := imported_given d wish m.reserved name
    refine .pure ⟨sound, ?_, ⟨name, rfl⟩, by simp [Event.unique?], ?_, by simp [Event.declared]⟩
    -- Nothing to import, imported before, or imported now: only the last of them adds a binding.
    · obtain ⟨-, -, rfl⟩ | ⟨-, -, rfl⟩ | ⟨-, -, first, rfl⟩ := cases
      · exact grows_same (List.Subset.refl _) rfl
      · exact grows_same (List.Subset.refl _) rfl
      · exact grows_bind d _ first.free
    · intro b mem
      obtain ⟨named, rfl⟩ := given b mem
      obtain ⟨empty, -, -⟩ | ⟨-, found, rfl⟩ | ⟨-, new, -, rfl⟩ := cases
      · contradiction
      · exact found
      · exact lookup_bind d new
  | uniqueName base =>
    refine .bind ((uniqueName_ensures base m).mono ?_)
    rintro _ _ ⟨name, rfl, first, rfl⟩
    have isName := first.isName (isName_toIdentifier base)
    have free : name ∉ m.reserved := first.free
    refine .pure ⟨h.reserve [name], grows_same (reserve_subset _ m) rfl, ⟨name, rfl, isName, first⟩,
      ?_, by simp [Event.imported?], by simp [Event.declared]⟩
    intro n mem
    obtain rfl : name = n := Option.some.inj mem
    exact ⟨free, mem_reserve.2 (.inr (by simp)), rfl⟩
  | addState name initial =>
    refine .bind ((h.addState name initial).and (addState_ensures name initial m) |>.mono ?_)
    have taken {n : String} (mem : n ∈ [name, setterName name]) :
        n ∈ (m.reserve [name, setterName name]).reserved := mem_reserve.2 (.inr mem)
    rintro r m' ⟨sound, ⟨known, rfl, rfl⟩ | ⟨-, ⟨f, stops, rfl⟩, rfl⟩ | ⟨-, -, rfl, rfl⟩⟩
    · refine .pure ⟨sound, grows_same (List.Subset.refl _) rfl, .inl rfl, by simp [Event.unique?],
        by simp [Event.imported?], ?_⟩
      obtain ⟨s, found, rfl⟩ := List.mem_map.1 known
      simpa [Event.declared] using h.states s found
    · exact ⟨sound, grows_same (reserve_subset _ m) rfl, .inr ⟨f, Script.mem_literalFaults stops, rfl⟩,
        by simp [Event.unique?],
        by simp [Event.imported?], fun n mem => taken mem⟩
    · exact .pure ⟨sound, grows_same (reserve_subset _ m) rfl, .inl rfl, by simp [Event.unique?],
        by simp [Event.imported?], fun n mem => taken mem⟩
  | addMethod name code =>
    refine .bind (.modify (.pure ⟨h.addMethod name code, ?_, rfl, by simp [Event.unique?],
      by simp [Event.imported?], ?_⟩))
    · rw [Module.addMethod]
      split
      · exact grows_same (List.Subset.refl _) rfl
      · exact grows_same (reserve_subset [name] m) rfl
    · intro n mem
      obtain rfl := List.mem_singleton.1 mem
      rw [Module.addMethod]
      split
      · next known =>
        obtain ⟨f, found, rfl⟩ := List.mem_map.1 (Table.has_iff.1 known)
        exact h.methods f found
      · exact mem_reserve.2 (.inr (by simp))

theorem perform_cons (c : Call) (r : List Call) (m : Module) (log : List Notice) :
    perform (c :: r) m log = ⟨c, m.reserved, (c.build m log).1.1⟩ ::
      perform r (c.build m log).1.2 (c.build m log).2 := rfl

/-- What every later call finds: a new name is none that is taken now, and an import has its name
already or gets a new one. -/
theorem perform_later (calls : List Call) {m : Module} (h : Sound m) (log : List Notice) :
    ∀ e ∈ perform calls m log, e.Answers ∧ (∀ n ∈ e.unique?, n ∉ m.reserved) ∧
      ∀ b ∈ e.imported?, m.bound.lookup b.1 = some b.2 ∨
        m.bound.lookup b.1 = none ∧ b.2 ∉ m.reserved := by
  induction calls generalizing m log with
  | nil => simp [perform]
  | cons c r ih =>
    obtain ⟨sound, grows, leaves⟩ := c.build_ensures h log
    rw [perform_cons]
    simp only [List.forall_mem_cons]
    refine ⟨⟨leaves.answers, fun n mem => (leaves.unique n mem).1,
      fun b mem => grows.fresh b.1 b.2 (leaves.imported b mem)⟩, ?_⟩
    intro e mem
    obtain ⟨answers, unique, imported⟩ := ih sound (c.build m log).2 e mem
    refine ⟨answers, fun n mem found => unique n mem (grows.taken found), ?_⟩
    intro b mem
    obtain found | ⟨new, free⟩ := imported b mem
    · exact grows.fresh b.1 b.2 found
    · refine .inr ⟨?_, fun found => free (grows.taken found)⟩
      by_contra bound
      obtain ⟨n, found⟩ := Option.ne_none_iff_exists'.1 bound
      rw [grows.kept b.1 n found] at new
      contradiction

/-- A call keeps its names apart from those of every later call. -/
theorem Event.Leaves.apart {e f : Event} {m m' : Module} (sound : Sound m) (sound' : Sound m')
    (leaves : e.Leaves m m') (unique : ∀ n ∈ f.unique?, n ∉ m'.reserved)
    (imported : ∀ b ∈ f.imported?, m'.bound.lookup b.1 = some b.2 ∨
      m'.bound.lookup b.1 = none ∧ b.2 ∉ m'.reserved) : e.Apart f := by
  refine ⟨?_, ?_, ?_⟩
  · intro n mem
    have free := unique n mem
    refine ⟨fun same => free (leaves.unique n same).2.1, fun same => free (leaves.declared n same), ?_⟩
    rintro b binding rfl
    exact free (sound'.bound _ (Table.mem_of_lookup (leaves.imported b binding)))
  -- A binding that the later call finds is older than the unique name, which was free then; a new one
  -- keeps away from all names that are taken.
  · rintro n mem b binding rfl
    obtain ⟨free, taken, same⟩ := leaves.unique _ mem
    obtain found | ⟨-, new⟩ := imported b binding
    · rw [same] at found
      exact free (sound.bound _ (Table.mem_of_lookup found))
    · exact new taken
  · intro b binding b' binding'
    have found := leaves.imported b binding
    obtain found' | ⟨new, free⟩ := imported b' binding'
    · exact same_binding sound'.apart found found'
    · have other : b.2 ≠ b'.2 := by
        intro same
        exact free (same ▸ sound'.bound _ (Table.mem_of_lookup found))
      have otherKey : b.1 ≠ b'.1 := by
        intro same
        rw [same, new] at found
        contradiction
      exact iff_of_false other otherKey

theorem perform_apart (calls : List Call) {m : Module} (h : Sound m) (log : List Notice) :
    (perform calls m log).Pairwise Event.Apart := by
  induction calls generalizing m log with
  | nil => exact .nil
  | cons c r ih =>
    obtain ⟨sound, -, leaves⟩ := c.build_ensures h log
    rw [perform_cons]
    refine .cons ?_ (ih sound _)
    intro f mem
    obtain ⟨-, unique, imported⟩ := perform_later r sound _ f mem
    exact leaves.apart h sound unique imported

theorem perform_calls (calls : List Call) (m : Module) (log : List Notice) :
    (perform calls m log).map (·.call) = calls := by
  induction calls generalizing m log with
  | nil => rfl
  | cons c r ih => rw [perform_cons, List.map_cons, ih]

/-- Every sequence of calls on a new module comes to its end; each new name is the first free
identifier for its wish, none of the module's own names, and apart from all others. -/
theorem names_first_free_and_apart (own : String) (calls : List Call) (log : List Notice) :
    (perform calls (new own) log).map (·.call) = calls ∧
    (∀ e ∈ perform calls (new own) log, e.Answers ∧
      ∀ n ∈ e.unique?, n ∉ ["React", "useState", "useEffect", "styles", own]) ∧
    (perform calls (new own) log).Pairwise Event.Apart := by
  refine ⟨perform_calls calls _ log, ?_, perform_apart calls (sound_new own) log⟩
  intro e mem
  obtain ⟨answers, unique, -⟩ := perform_later calls (sound_new own) log e mem
  exact ⟨answers, unique⟩

end Pagesmith.Module
