import Pagesmith.Proofs.Page.Uniform
import Pagesmith.Proofs.Reading.Below
import Pagesmith.Proofs.Reading.Values
import Pagesmith.Proofs.Value.Copy

/-!
Pages as they are read have no states and no functions, nothing in their trees refers to a name, no
list in them mixes actions or nodes with other values, the settings of their actions have texts, and no
container that is written for one of their values holds itself.
-/

namespace Pagesmith.Reading

variable {excused : Set Fault} {c : Catalogue}

theorem obstacles_copy {v w : Value} (h : v.copy = .ok w) : w.obstacles = [] :=
  (Value.copy_eq_ok.1 h).2.2

/-- The settings of an action are copies, so they are JSON data. -/
theorem actionsOf_clean (key : String) (owner : Owner) (entries : List Value) :
    (actionsOf key owner entries).Yields fun as => ∀ a ∈ as, a.config.obstacles = [] := by
  have one (entry : Value) :
      (action? key owner entry).Yields fun a => ∀ b ∈ a, b.config.obstacles = [] := by
    have none : (pure none : Job (Option Action)).Yields fun a => ∀ b ∈ a, b.config.obstacles = [] :=
      .pure (by simp)
    rw [action?]
    split
    · exact none
    · split
      · split
        · exact none
        · split
          · next copy =>
            refine .pure fun b mem => ?_
            obtain rfl := Option.some.inj mem
            exact obstacles_copy copy
          · exact .bind (.any _) fun _ _ => none
      · exact none
  induction entries with
  | nil => exact .pure (by simp)
  | cons entry r ih =>
    refine .bind (one entry) fun first whole => .bind ih fun rest more => .pure ?_
    intro a mem
    obtain mem | mem := List.mem_append.1 mem
    · exact whole a (Option.mem_toList.1 mem)
    · exact more a mem

theorem actionsOf_short (key : String) (owner : Owner) (entries : List Value) :
    (actionsOf key owner entries).Yields fun as => ∀ a ∈ as, a.config.holdsLongNumber = false :=
  fun log as ok a mem => Value.holdsLongNumber_of_clean (actionsOf_clean key owner entries log as ok a mem)

theorem actionsOf_whole (key : String) (owner : Owner) (entries : List Value) :
    (actionsOf key owner entries).Yields fun as => ∀ a ∈ as, a.config.IsWhole excused :=
  fun log as ok a mem => Value.isWhole_of_clean (actionsOf_clean key owner entries log as ok a mem)

/-- The value refers to no state and no function, and the settings of its actions have texts. -/
structure IsPlain (p : PropOf Node) : Prop where
  references : p.references = []
  short : ∀ a ∈ p.actions, a.config.holdsLongNumber = false

theorem ofKinds_plain : OfKinds excused IsPlain where
  clean _ _ := ⟨rfl, fun _ mem => nomatch mem⟩
  literal _ _ _ _ := fun _ _ _ => ⟨rfl, fun _ mem => nomatch mem⟩
  expression _ := ⟨rfl, fun _ mem => nomatch mem⟩
  function _ := ⟨rfl, fun _ mem => nomatch mem⟩
  actions key owner entries log as ok := by
    have short := actionsOf_short key owner entries log as ok
    refine ⟨fun a mem => ⟨rfl, List.forall_mem_singleton.2 (short a mem)⟩, (PropOf.carried_actions as).1, ?_⟩
    rwa [PropOf.actions_many]
  node _ := ⟨rfl, fun _ mem => nomatch mem⟩
  nodes ns := ⟨(PropOf.carried_nodes ns).1, by rw [PropOf.actions_nodes]; exact fun _ mem => nomatch mem⟩

/-- The pages of a schema have no states and no functions, refer to none, and have actions with short settings, if
that holds of all the values that the rules of the catalogue bring in. -/
theorem project_plain (keeps : c.Keeps IsPlain) (schema : Value) :
    (project c schema).Yields fun p => ∀ q ∈ p.pages, q.states = [] ∧ q.methods = [] ∧ q.root.Plain ∧
      ∀ n ∈ q.root.walk, ∀ e ∈ n.layer.props, ∀ a ∈ e.2.actions, a.config.holdsLongNumber = false := by
  intro log p ok q page
  obtain ⟨ns, -, read, -, -⟩ := project_read ok
  obtain ⟨states, methods, holds⟩ :=
    project_holds (@ofKinds_plain Set.univ) keeps schema log p ok ns read (Set.subset_univ _) q page
  refine ⟨states, methods, holds.mono fun layer plain => ?_, fun n mem e prop => ?_⟩
  · exact List.flatMap_eq_nil_iff.2 fun e prop => (plain e prop).references
  · obtain ⟨here, -⟩ := holds.walk n mem
    exact (here e prop).short

/-- The rules of the default catalogue bring in texts, which are plain. -/
theorem plain_of_readsAsDefault (usual : c.ReadsAsDefault) : c.Keeps IsPlain :=
  keeps_of_readsAsDefault usual (@ofKinds_plain ∅)

theorem ofKinds_uniform : OfKinds excused fun p => p.isUniform = true where
  clean _ _ := rfl
  literal _ _ _ _ := fun _ _ _ => rfl
  expression _ := rfl
  function _ := rfl
  actions _ _ _ := fun _ as _ => by
    refine ⟨fun _ _ => rfl, ?_⟩
    rw [PropOf.isUniform, List.all_map]
    exact Bool.or_eq_true_iff.2 (.inl (List.all_eq_true.2 fun _ _ => rfl))
  node _ := rfl
  nodes ns := by
    rw [PropOf.isUniform, List.all_map, List.all_map]
    exact Bool.or_eq_true_iff.2 (.inr (List.all_eq_true.2 fun _ _ => rfl))

theorem project_uniform (usual : c.ReadsAsDefault) (schema : Value) :
    (project c schema).Yields fun p => ∀ q ∈ p.pages, q.root.Uniform := by
  intro log p ok q page n mem
  obtain ⟨ns, -, read, -, -⟩ := project_read ok
  have kinds : OfKinds Set.univ fun p => p.isUniform = true := ofKinds_uniform
  obtain ⟨-, -, holds⟩ := project_holds kinds (keeps_of_readsAsDefault usual kinds) schema log p ok ns read
    (Set.subset_univ _) q page
  obtain ⟨here, -⟩ := holds.walk n mem
  exact here

theorem literal_whole (key : String) (owner : Owner) {v : Value}
    (short : v.isSingle = true → v.holdsLongNumber = true → .longNumber ∈ excused) :
    (literal key owner v).Yields (Value.IsWhole excused) := by
  have taken (single : v.isSingle = true) (acyclic : .circular ∉ v.obstacles) : v.IsWhole excused :=
    ⟨fun circular => absurd circular acyclic, short single⟩
  cases v with
  | null | bool | str | torn => exact .pure (Value.isWhole_of_clean rfl)
  | int n => exact .pure (taken rfl (by rw [Value.obstacles]; split <;> simp))
  | float x => exact .pure (taken rfl (by rw [Value.obstacles]; split <;> simp))
  | list | tuple | dict | back =>
    simp only [literal]
    split
    · next copy => exact .pure (Value.isWhole_of_clean (obstacles_copy copy))
    · exact .bind (.any _) fun _ _ => .pure (Value.isWhole_of_clean rfl)
  | bytes | function | node | foreign =>
    exact .bind (.any _) fun _ _ => .pure (taken rfl (by simp [Value.obstacles]))

theorem ofKinds_whole : OfKinds excused (PropOf.IsWhole excused) where
  clean _ h := Value.isWhole_of_clean h
  literal key owner _ short := literal_whole key owner short
  expression _ := trivial
  function _ := trivial
  actions key owner entries log as ok := by
    have whole : ∀ a ∈ as, a.config.IsWhole excused := actionsOf_whole key owner entries log as ok
    refine ⟨whole, ((@ofKinds_uniform excused).actions key owner entries log as ok).2, ?_⟩
    rwa [PropOf.actions_many]
  node _ := trivial
  nodes ns := by
    refine ⟨(@ofKinds_uniform excused).nodes ns, fun a mem => ?_⟩
    rw [PropOf.actions_nodes] at mem
    cases mem

/-- The values of the pages of a schema are whole, but for what its page nodes bring in. -/
theorem project_whole (usual : c.ReadsAsDefault) {schema : Value} {ns : List EditorNode}
    (read : Schema.read schema = .ok ns) : (project c schema).Yields fun p =>
      ∀ q ∈ p.pages, q.root.Holds (PropOf.IsWhole (allFaultsOf (pageRoots ns))) := by
  intro log p ok q page
  have kinds := @ofKinds_whole (allFaultsOf (pageRoots ns))
  have keeps := keeps_of_readsAsDefault usual kinds
  exact (project_holds kinds keeps schema log p ok ns read (Set.Subset.refl _) q page).2.2

/-- The styles of the pages of a schema have texts, but for the numbers that its page nodes bring in. -/
theorem project_styles (usual : c.ReadsAsDefault) {schema : Value} {ns : List EditorNode}
    (read : Schema.read schema = .ok ns) : (project c schema).Yields fun p => ∀ q ∈ p.pages,
      q.root.Everywhere fun layer => ∀ ss ∈ layer.styles, Value.entriesHoldLongNumber ss = true →
        .longNumber ∈ allFaultsOf (pageRoots ns) := by
  have excused : ∀ n ∈ pageRoots ns, n.Everywhere fun m => ∀ f, m.Brings f → f ∈ allFaultsOf (pageRoots ns) :=
    fun n mem => EditorNode.everywhere_excused (allFaults_subset mem)
  refine project_everywhere usual (fun R path n layer h brings ss given long => ?_) read excused
  obtain none | same := h.styles
  · rw [none] at given
    cases given
  · rw [same] at given
    obtain ⟨found, -⟩ := Option.filter_eq_some_iff.1 given
    exact brings _ (.styles found long)

end Pagesmith.Reading
