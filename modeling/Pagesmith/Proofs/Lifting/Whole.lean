import Pagesmith.Proofs.Lifting.Complete
import Pagesmith.Proofs.Lifting.Trace
import Pagesmith.Proofs.Reading.Plain

/-!
Pages stay whole when they are lifted. What lifting makes of an action are settings of its own, and the
values of states and functions are those of the catalogue.
-/

namespace Pagesmith.Lifting

variable {c : Catalogue} {p : Page} {excused : Set Fault}

theorem isWhole_ofActions {as : List Action} (h : ∀ a ∈ as, a.config.IsWhole excused) :
    (ofActions as).IsWhole excused := by
  match as with
  | [] => exact ⟨rfl, fun a mem => nomatch mem⟩
  | [a] => exact h a List.mem_cons_self
  | a :: b :: r =>
    refine ⟨isUniform_ofActions (a :: b :: r), fun a' mem => h a' ?_⟩
    rwa [← PropOf.actions_many (ν := Ref) (a :: b :: r)]

theorem isWhole_lifted {s : Sheet} {a : Action} (h : a.config.IsWhole excused) :
    (lifted c s a).config.IsWhole excused := by
  cases found : target? c s a with
  | none => rwa [lifted_other found]
  | some t =>
    rw [lifted_target found]
    exact Value.isWhole_of_clean rfl

/-- The lists of a tree of whole values are of one kind each. -/
theorem uniform_of_whole {root : Node} (h : root.Holds (PropOf.IsWhole excused)) : root.Uniform := by
  intro n mem e there
  obtain ⟨here, -⟩ := h.walk n mem
  exact (here e there).uniform

theorem outcome_holds_whole (c : Catalogue) (h : p.root.Holds (PropOf.IsWhole excused)) :
    (outcome c p).root.Holds (PropOf.IsWhole excused) := by
  have given : ∀ n ∈ p.root.walk, ∀ e ∈ n.layer.props, e.2.IsWhole excused := by
    intro n mem
    obtain ⟨here, -⟩ := h.walk n mem
    exact here
  refine Node.everywhere_of_walk (outcome_uniform c (uniform_of_whole h)) ?_
  refine @outcome_values c p (PropOf.IsWhole excused) PropOf.isWhole_map (fun _ => trivial) ?_ given
  intro v whole
  refine isWhole_ofActions fun a mem => ?_
  obtain ⟨b, there, rfl⟩ := List.mem_map.1 mem
  exact isWhole_lifted (whole.actions b there)

/-- The values that component methods assign are whole. -/
theorem bindings_default : ∀ e ∈ Catalogue.default.materials, ∀ m ∈ e.2.methods,
    ∀ b ∈ m.binding, b.value.IsWhole excused := by
  have all : (Catalogue.default.materials.all fun e => e.2.methods.all fun m =>
      m.binding.all fun b => b.value.obstacles.isEmpty) = true := by
    decide +kernel
  intro e mem m method b binding
  have clean := List.all_eq_true.1 (List.all_eq_true.1 all e mem) m method
  rw [Option.mem_def.1 binding] at clean
  exact Value.isWhole_of_clean (List.isEmpty_iff.1 clean)

/-- A page as it is read is whole after lifting. -/
theorem outcome_whole (states : p.states = []) (methods : p.methods = []) (plain : p.root.Plain)
    (whole : p.root.Holds (PropOf.IsWhole excused)) (styles : p.root.Everywhere fun layer =>
      ∀ ss ∈ layer.styles, Value.entriesHoldLongNumber ss = true → .longNumber ∈ excused) :
    (outcome .default p).IsWhole excused where
  states s mem := by
    obtain given | same := (follows_finished .default p).states s mem
    · change s ∈ p.states at given
      rw [states] at given
      cases given
    · rw [same]
      exact Value.isWhole_of_clean rfl
  methods m mem state value fromEvent setter := by
    have owns := finished_owns .default states methods plain
    obtain ⟨t, lifted, -, value', _, setter', values⟩ := owns.setters m mem
    cases setter.symm.trans setter'
    obtain ⟨a, n, resolves, -, -⟩ := liftedTargets_resolve lifted
    simp only [List.mem_cons, List.not_mem_nil, or_false] at values
    obtain rfl | rfl | rfl := values
    · have known := Table.mem_of_lookup resolves.known
      have method := List.mem_of_find?_eq_some resolves.found
      exact bindings_default _ known _ method _ resolves.binding
    · exact Value.isWhole_of_clean rfl
    · exact Value.isWhole_of_clean rfl
  values := outcome_holds_whole .default whole
  styles := @outcome_faces .default p (fun layer => ∀ ss ∈ layer.styles, Value.entriesHoldLongNumber ss = true →
    Fault.longNumber ∈ excused) (uniform_of_whole whole) styles

end Pagesmith.Lifting
