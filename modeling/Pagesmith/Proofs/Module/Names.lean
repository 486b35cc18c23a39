import Pagesmith.Proofs.Module.Building
import Pagesmith.Proofs.Script.Literal
import Pagesmith.Proofs.Text.Name
import Mathlib.Data.List.Nodup

/-!
The names a module gives out. A new name is the first free one among a wish and its numbered forms,
which differ from each other, so the search ends before the taken names are used up. `Sound` ties
the taken names to the imports, states and functions of a module, and every step keeps it.
-/

namespace Pagesmith.Module
open Build Text

/-- The names that are tried for a wish: the wish, then its numbered forms from two on. -/
def candidate (base : String) : Nat → String
  | 0 => base
  | k + 1 => numbered base (k + 2)

/-- The first candidate that is not taken. -/
def IsFirstFree (taken : List String) (base name : String) : Prop :=
  ∃ k, name = candidate base k ∧ name ∉ taken ∧ ∀ j < k, candidate base j ∈ taken

theorem numbered_injective {base : String} {i j : Nat} (h : numbered base i = numbered base j) :
    i = j := by
  simp only [numbered, ← String.toList_inj, String.toList_append, List.append_cancel_left_eq] at h
  exact toString_inj h

theorem isName_numbered {base : String} (h : IsName base) (k : Nat) : IsName (numbered base k) := by
  have digits : ∀ c ∈ (toString k).toList, isNameChar c = true := by
    intro c mem
    simp [isNameChar, Char.isAlphanum, isDigit_toString k c mem]
  exact (h.append (List.all_eq_true.1 (by decide))).append digits

theorem isName_candidate {base : String} (h : IsName base) (k : Nat) :
    IsName (candidate base k) := by
  cases k with
  | zero => exact h
  | succ k => exact isName_numbered h (k + 2)

theorem IsFirstFree.isName {taken : List String} {base name : String}
    (h : IsFirstFree taken base name) (isName : IsName base) : IsName name := by
  obtain ⟨k, rfl, -⟩ := h
  exact isName_candidate isName k

theorem IsFirstFree.free {taken : List String} {base name : String}
    (h : IsFirstFree taken base name) : name ∉ taken := by
  obtain ⟨k, -, free, -⟩ := h
  exact free

/-- The first number from `counter` on that is not taken; after so many taken ones the next. -/
def search (taken : Nat → Bool) : (more : Nat) → (counter : Nat) → Nat
  | 0, counter => counter
  | more + 1, counter => if taken counter then search taken more (counter + 1) else counter

theorem search_first {taken : Nat → Bool} {more counter : Nat}
    (free : ∃ k ≤ more, taken (counter + k) = false) :
    ∃ k, search taken more counter = counter + k ∧ taken (counter + k) = false ∧
      ∀ j < k, taken (counter + j) = true := by
  -- By induction on the attempts left. A failed one moves the counter, so the free place is one nearer.
  obtain ⟨k, bound, free⟩ := free
  induction more generalizing counter k with
  | zero =>
    obtain rfl : k = 0 := by omega
    exact ⟨0, rfl, free, by simp⟩
  | succ more ih =>
    rw [search]
    cases first : taken counter with
    | false => exact ⟨0, rfl, first, by simp⟩
    | true =>
      cases k with
      | zero =>
        rw [Nat.add_zero, first] at free
        cases free
      | succ k =>
        have shift (j : Nat) : counter + 1 + j = counter + (j + 1) := by omega
        rw [← shift] at free
        obtain ⟨k, found, free, before⟩ := ih k (by omega) free
        refine ⟨k + 1, by rw [if_pos rfl, found, shift], by rwa [← shift], fun j less => ?_⟩
        cases j with
        | zero => exact first
        | succ j =>
          rw [← shift]
          exact before j (by omega)

/-- Among different names the search from two on ends before the used names are used up. -/
theorem search_unused {f : Nat → String} (different : ∀ i j, f i = f j → i = j)
    (used : List String) :
    ∃ k, search (fun i => used.contains (f i)) used.length 2 = k + 2 ∧ f (k + 2) ∉ used ∧
      ∀ j < k, f (j + 2) ∈ used := by
  have free : ∃ k ≤ used.length, used.contains (f (2 + k)) = false := by
    by_contra all
    -- all names tried would be used, and they are more than the used ones
    have sub : (List.range (used.length + 1)).map (fun k => f (2 + k)) ⊆ used := by
      intro x mem
      obtain ⟨k, bound, rfl⟩ := List.mem_map.1 mem
      by_contra out
      exact all ⟨k, Nat.lt_succ_iff.1 (List.mem_range.1 bound), by simpa using out⟩
    have tried : ((List.range (used.length + 1)).map fun k => f (2 + k)).Nodup := by
      refine List.Nodup.map_on (fun i _ j _ same => ?_) List.nodup_range
      have := different _ _ same
      omega
    have := tried.length_le_of_subset sub
    simp at this
  obtain ⟨k, found, out, before⟩ := @search_first (fun i => used.contains (f i)) _ _ free
  simp only [Nat.add_comm 2] at found out before
  exact ⟨k, found, by simpa using out, fun j less => by simpa using before j less⟩

theorem freeNumbered_eq (taken : List String) (base : String) (more counter : Nat) :
    freeNumbered taken base more counter =
      numbered base (search (fun i => taken.contains (numbered base i)) more counter) := by
  induction more generalizing counter with
  | zero => rfl
  | succ more ih =>
    rw [freeNumbered, search, ih]
    exact (apply_ite (numbered base) _ _ _).symm

theorem freeName_first (taken : List String) (base : String) :
    IsFirstFree taken base (freeName taken base) := by
  rw [freeName]
  split
  case isFalse free => exact ⟨0, rfl, by simpa using free, by simp⟩
  case isTrue base_taken =>
    obtain ⟨k, found, free, before⟩ := search_unused (fun _ _ => numbered_injective) taken
    rw [freeNumbered_eq, found]
    refine ⟨k + 1, rfl, free, fun j less => ?_⟩
    cases j with
    | zero => simpa [candidate] using base_taken
    | succ j => exact before j (by omega)

theorem mem_reserve {names : List String} {m : Module} {n : String} :
    n ∈ (m.reserve names).reserved ↔ n ∈ m.reserved ∨ n ∈ names := by
  simp only [reserve, List.mem_append, List.mem_filter, Bool.not_eq_true', List.contains_eq_mem,
    decide_eq_false_iff_not]
  tauto

theorem reserve_subset (names : List String) (m : Module) :
    m.reserved ⊆ (m.reserve names).reserved :=
  fun _ mem => mem_reserve.2 (.inl mem)

theorem uniqueName_ensures (base : String) (m : Module) :
    (uniqueName base).Ensures m fun r m' =>
      ∃ name, r = .ok name ∧ IsFirstFree m.reserved (toIdentifier base) name ∧
        m' = m.reserve [name] :=
  fun _ => ⟨_, rfl, freeName_first m.reserved (toIdentifier base), rfl⟩

/-- What tells the bindings of a module apart: the source and the export. -/
def bindingKey (d : Dependency) (wish : Option String) : String × String :=
  (d.source, exportOf d (desiredName d wish))

theorem isName_desiredName (d : Dependency) (wish : Option String) : IsName (desiredName d wish) :=
  isName_toIdentifier _

/-- The module with one more binding. -/
def bind (d : Dependency) (key : String × String) (name : String) (m : Module) : Module :=
  { m.reserve [name] with
    imports := Table.insert d.source
      (ImportEntry.add ((m.imports.lookup d.source).getD ⟨none, []⟩) d key.2 name) m.imports
    bound := m.bound ++ [(key, name)] }

/-- An import gives the wish without a source, the name of the binding if there is one, and else a
new name, which is bound. -/
theorem addImport_ensures (d : Dependency) (wish : Option String) (m : Module) :
    (addImport d wish).Ensures m fun r m' => ∃ name, r = .ok name ∧
      (d.source = "" ∧ name = desiredName d wish ∧ m' = m ∨
      d.source ≠ "" ∧ m.bound.lookup (bindingKey d wish) = some name ∧ m' = m ∨
      d.source ≠ "" ∧ m.bound.lookup (bindingKey d wish) = none ∧
        IsFirstFree m.reserved (desiredName d wish) name ∧
        m' = m.bind d (bindingKey d wish) name) := by
  rw [addImport]
  split
  case isTrue empty => exact .pure ⟨_, rfl, .inl ⟨by simpa using empty, rfl, rfl⟩⟩
  case isFalse named =>
    have named : d.source ≠ "" := by simpa using named
    refine .get ?_
    split
    case h_1 name found => exact .pure ⟨name, rfl, .inr (.inl ⟨named, found, rfl⟩)⟩
    case h_2 new =>
      refine .bind ((uniqueName_ensures _ m).mono ?_)
      rintro _ _ ⟨name, rfl, first, rfl⟩
      rw [toIdentifier_isName (isName_desiredName d wish)] at first
      dsimp only
      split
      · exact .bind (.ofJob fun _ => .bind (.modify (.pure
          ⟨name, rfl, .inr (.inr ⟨named, new, first, rfl⟩)⟩)))
      · exact .bind (.modify (.pure ⟨name, rfl, .inr (.inr ⟨named, new, first, rfl⟩)⟩))

/-- The module with one more state. -/
def declare (name : String) (initial : Value) (m : Module) : Module :=
  { m.reserve [name, setterName name] with
    states := m.states ++ [(name, Script.stateHook name (Script.literalText initial))] }

/-- A state is declared once. One that starts with a container that holds itself is not declared,
but its names stay taken. -/
theorem addState_ensures (name : String) (initial : Value) (m : Module) :
    (addState name initial).Ensures m fun r m' =>
      name ∈ m.states.map (·.1) ∧ r = .ok () ∧ m' = m ∨
      name ∉ m.states.map (·.1) ∧ (∃ f, Script.literalFault? initial = some f ∧ r = .error f) ∧
        m' = m.reserve [name, setterName name] ∨
      name ∉ m.states.map (·.1) ∧ Script.literalFault? initial = none ∧ r = .ok () ∧
        m' = m.declare name initial := by
  rw [addState]
  refine .get ?_
  by_cases known : Table.has name m.states = true
  · rw [if_pos known]
    exact .pure (.inl ⟨Table.has_iff.1 known, rfl, rfl⟩)
  · rw [if_neg known]
    rw [Table.has_iff] at known
    refine .bind (.modify (.bind (.ofJob fun log => ?_)))
    rw [Script.literal_outcome]
    cases stops : Script.literalFault? initial with
    | some f => exact .inr (.inl ⟨known, ⟨f, rfl, rfl⟩, rfl⟩)
    | none => exact .modify (.inr (.inr ⟨known, rfl, rfl, rfl⟩))

/-- The names every module has from the start. -/
def ownNames (m : Module) : List String := ["React", "useState", "useEffect", "styles", m.name]

/-- All names of a module are taken, and no two bindings share one. -/
structure Sound (m : Module) : Prop where
  own : ∀ n ∈ m.ownNames, n ∈ m.reserved
  bound : ∀ b ∈ m.bound, b.2 ∈ m.reserved
  apart : (m.bound.map (·.2)).Nodup
  states : ∀ s ∈ m.states, s.1 ∈ m.reserved ∧ setterName s.1 ∈ m.reserved
  methods : ∀ f ∈ m.methods, f.1 ∈ m.reserved

theorem sound_new (name : String) : Sound (new name) where
  own := fun _ mem => mem
  bound := by simp [new]
  apart := by simp [new]
  states := by simp [new]
  methods := by simp [new]

theorem Sound.reserve {m : Module} (h : Sound m) (names : List String) : Sound (m.reserve names) where
  own := fun n mem => mem_reserve.2 (.inl (h.own n mem))
  bound := fun b mem => mem_reserve.2 (.inl (h.bound b mem))
  apart := h.apart
  states := fun s mem =>
    ⟨mem_reserve.2 (.inl (h.states s mem).1), mem_reserve.2 (.inl (h.states s mem).2)⟩
  methods := fun f mem => mem_reserve.2 (.inl (h.methods f mem))

/-- Effects, classes, markup and styles bring no names. -/
theorem Sound.withRest {m : Module} (h : Sound m) (effects : List String)
    (classes : List (String × List (String × Value))) (nodeClasses : List (String × String))
    (markup : String) (stylesheet : Option String) :
    Sound { m with
      effects := effects, classes := classes, nodeClasses := nodeClasses, markup := markup
      stylesheet := stylesheet } where
  own := h.own
  bound := h.bound
  apart := h.apart
  states := h.states
  methods := h.methods

section Bind

variable {m : Module} (d : Dependency) (key : String × String) {name : String}

theorem taken_bind (taken : ∀ b ∈ m.bound, b.2 ∈ m.reserved) :
    ∀ b ∈ (m.bind d key name).bound, b.2 ∈ (m.bind d key name).reserved := by
  simp only [Module.bind, List.mem_append, List.mem_singleton]
  rintro b (mem | rfl)
  · exact reserve_subset [name] m (taken b mem)
  · exact mem_reserve.2 (.inr (by simp))

variable (free : name ∉ m.reserved)
include free

/-- A name that is taken is not the new one. -/
theorem unbound_bind {n : String} (taken : n ∈ m.reserved) (other : n ∉ m.bound.map (·.2)) :
    n ∉ (m.bind d key name).bound.map (·.2) := by
  simp only [Module.bind, List.map_append, List.mem_append, not_or]
  refine ⟨other, fun mem => ?_⟩
  obtain rfl := List.mem_singleton.1 mem
  exact free taken

theorem apart_bind (taken : ∀ b ∈ m.bound, b.2 ∈ m.reserved) (apart : (m.bound.map (·.2)).Nodup) :
    ((m.bind d key name).bound.map (·.2)).Nodup := by
  simp only [Module.bind, List.map_append, List.map_cons, List.map_nil]
  refine List.nodup_append.2 ⟨apart, by simp, ?_⟩
  intro n mem n' mem' same
  obtain ⟨b, found, rfl⟩ := List.mem_map.1 mem
  obtain rfl := List.mem_singleton.1 mem'
  exact free (same ▸ taken b found)

end Bind

theorem Sound.bind {m : Module} (h : Sound m) (d : Dependency) (key : String × String)
    {name : String} (free : name ∉ m.reserved) : Sound (m.bind d key name) where
  own := (h.reserve [name]).own
  bound := taken_bind d key h.bound
  apart := apart_bind d key free h.bound h.apart
  states := (h.reserve [name]).states
  methods := (h.reserve [name]).methods

theorem Sound.declare {m : Module} (h : Sound m) (name : String) (initial : Value) :
    Sound (m.declare name initial) where
  own := (h.reserve _).own
  bound := (h.reserve _).bound
  apart := h.apart
  states := by
    simp only [Module.declare, List.mem_append, List.mem_singleton]
    rintro s (mem | rfl)
    · exact (h.reserve _).states s mem
    · exact ⟨mem_reserve.2 (.inr (by simp)), mem_reserve.2 (.inr (by simp))⟩
  methods := (h.reserve _).methods

theorem Sound.addMethod {m : Module} (h : Sound m) (name code : String) :
    Sound (m.addMethod name code) := by
  rw [Module.addMethod]
  split
  · exact h
  · exact {
      own := (h.reserve _).own
      bound := (h.reserve _).bound
      apart := h.apart
      states := (h.reserve _).states
      methods := by
        simp only [List.mem_append, List.mem_singleton]
        rintro f (mem | rfl)
        · exact (h.reserve _).methods f mem
        · exact mem_reserve.2 (.inr (by simp)) }

theorem Sound.addImport {m : Module} (h : Sound m) (d : Dependency) (wish : Option String) :
    (addImport d wish).Ensures m fun _ m' => Sound m' := by
  refine (addImport_ensures d wish m).mono ?_
  rintro r m' ⟨name, -, ⟨-, -, rfl⟩ | ⟨-, -, rfl⟩ | ⟨-, -, first, rfl⟩⟩
  · exact h
  · exact h
  · exact h.bind d _ first.free

theorem Sound.addState {m : Module} (h : Sound m) (name : String) (initial : Value) :
    (addState name initial).Ensures m fun _ m' => Sound m' := by
  refine (addState_ensures name initial m).mono ?_
  rintro r m' (⟨-, -, rfl⟩ | ⟨-, -, -, rfl⟩ | ⟨-, -, -, rfl⟩)
  · exact h
  · exact h.reserve _
  · exact h.declare name initial

/-- Where names are bound once, two bindings under one name are one binding. -/
theorem same_binding {m : Module} (apart : (m.bound.map (·.2)).Nodup) {k k' : String × String} {n n' : String}
    (found : m.bound.lookup k = some n) (found' : m.bound.lookup k' = some n') : n = n' ↔ k = k' := by
  constructor
  · rintro rfl
    have pairs := List.inj_on_of_nodup_map apart (Table.mem_of_lookup found) (Table.mem_of_lookup found') rfl
    exact congrArg Prod.fst pairs
  · rintro rfl
    exact Option.some.inj (found.symm.trans found')

end Pagesmith.Module
