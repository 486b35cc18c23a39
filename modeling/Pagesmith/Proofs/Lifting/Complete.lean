import Pagesmith.Proofs.Lifting.Tree
import Pagesmith.Proofs.Lifting.Target

/-!
Lifting is complete and idempotent. On a page with different identifiers whose values are of one
kind each, the actions for component methods that are left are those that cannot be resolved, and
lifting the page again changes nothing.
-/

namespace Pagesmith.Lifting

variable {c : Catalogue} {p : Page} {a : Action}

section Outcome

variable {n : Node}

theorem outcome_keys (c : Catalogue) (keys : p.root.DistinctProps) :
    (outcome c p).root.DistinctProps := by
  intro n' mem
  obtain ⟨n, -, alike⟩ := (outcome_done c keys).places narrows_done n' mem
  obtain @⟨_, l', _, ρ', done⟩ := alike
  change ((l'.map ρ').props.map (·.1)).Nodup
  rw [NodeOf.map, List.map_map]
  exact done.distinct

theorem outcome_settled (c : Catalogue) (keys : p.root.DistinctProps) :
    ∀ n' ∈ (outcome c p).root.walk, ∀ e ∈ n'.layer.props, IsSettled c (draft p).sheet e.2 := by
  intro n' mem e there
  obtain ⟨n, -, alike⟩ := (outcome_done c keys).places narrows_done n' mem
  exact settled_of_alike alike e there

theorem isUniform_ofActions (as : List Action) : (ofActions as).isUniform = true := by
  cases as with
  | nil => rfl
  | cons a r =>
    cases r with
    | nil => rfl
    | cons b r =>
      have all : ((((a :: b :: r).map PropOf.action : List (PropOf Ref))).all
          fun p => p.action?.isSome) = true := by
        rw [List.all_map]
        exact List.all_eq_true.2 fun _ _ => rfl
      exact Bool.or_eq_true_iff.2 (.inl all)

/-- Every node of the lifted tree has the face of a given one, and its properties have come of those. -/
theorem outcome_walk (c : Catalogue) (p : Page) : ∀ n' ∈ (outcome c p).root.walk, ∃ n ∈ p.root.walk,
    n'.layer.face = n.layer.face ∧
      ∀ e ∈ n'.layer.props, Fate c (draft p).sheet (finished c p) n e.1 e.2 := by
  intro n' mem
  obtain ⟨n, place, alike⟩ := (outcome_alike c p).places narrows_redrawn n' mem
  refine ⟨n, place.mem_walk, face_of_alike (fun _ _ h => h.bare) alike, fun e there => ?_⟩
  exact fate_of_alike (fun _ _ h => h) alike there

/-- What holds of the values of a page, of references, and of what lifting makes of actions, holds of
the values of the lifted page. -/
theorem outcome_values {P : ∀ {ν : Type}, PropOf ν → Prop}
    (map : ∀ {ν μ : Type} (f : ν → μ) (v : PropOf ν), P (v.map f) ↔ P v)
    (reference : ∀ name, P (.reference name : PropOf Node))
    (rewritten : ∀ v : PropOf Node, P v → P (ofActions (v.actions.map (lifted c (draft p).sheet))))
    (given : ∀ n ∈ p.root.walk, ∀ e ∈ n.layer.props, P e.2) :
    ∀ n ∈ (outcome c p).root.walk, ∀ e ∈ n.layer.props, P e.2 := by
  intro n' mem e there
  obtain ⟨n, walked, -, fates⟩ := outcome_walk c p n' mem
  have fate := fates e there
  obtain ⟨key, v'⟩ := e
  cases fate with
  | given found =>
    have before := given n walked _ found
    rw [map] at before ⊢
    exact before
  | lifted found =>
    rw [map]
    exact rewritten _ (given n walked _ found)
  | bound => exact reference _

theorem outcome_uniform (c : Catalogue) (uniform : p.root.Uniform) :
    (outcome c p).root.Uniform :=
  @outcome_values c p (fun v => v.isUniform = true) (fun f v => by rw [PropOf.isUniform_map])
    (fun _ => rfl) (fun _ _ => isUniform_ofActions _) uniform

/-- What the nodes of a tree have for themselves, besides their properties, they have after lifting. -/
theorem outcome_faces {c : Catalogue} {p : Page} {Q : NodeOf Empty → Prop} (uniform : p.root.Uniform)
    (h : p.root.Everywhere (Q ·.face)) : (outcome c p).root.Everywhere (Q ·.face) := by
  refine Node.everywhere_of_walk (outcome_uniform c uniform) fun n' mem => ?_
  obtain ⟨n, walked, face, -⟩ := outcome_walk c p n' mem
  obtain ⟨here, -⟩ := h.walk n walked
  rwa [face]

/-- What cannot be resolved on a page cannot be resolved on the lifted page. -/
theorem Unresolvable.outcome (ids : p.root.DistinctIds) (h : Unresolvable c p.root a) :
    Unresolvable c (Lifting.outcome c p).root a := by
  have found : ∀ n', (Lifting.outcome c p).root.find? (a.setting "componentId").text = some n' →
      ∃ n, p.root.find? (a.setting "componentId").text = some n ∧
        n'.layer.schemaName = n.layer.schemaName := by
    intro n' found
    obtain ⟨mem, id⟩ := Node.find?_mem found
    obtain ⟨n, place, alike⟩ := (outcome_alike c p).places narrows_redrawn n' mem
    obtain ⟨same, name⟩ := data_of_alike (fun _ _ h => h.bare) alike
    rw [same] at id
    rw [← id]
    exact ⟨n, Node.find?_of_distinctIds ids place.mem_walk, name⟩
  -- A lifted page may have lost nodes, so a failed lookup may fail for another reason than before.
  cases node : (Lifting.outcome c p).root.find? (a.setting "componentId").text with
  | none => exact .noNode node
  | some n' =>
    obtain ⟨n, there, name⟩ := found n' node
    cases h with
    | noComponent null => exact .noComponent null
    | noMethod falsy => exact .noMethod falsy
    | noNode absent =>
      rw [absent] at there
      cases there
    | unbound there' unbound =>
      obtain rfl := Option.some.inj (there.symm.trans there')
      rw [← name] at unbound
      exact .unbound node unbound

theorem target?_outcome (ids : p.root.DistinctIds)
    (h : target? c (draft p).sheet a = none) : target? c (draft (outcome c p)).sheet a = none := by
  by_cases kind : a.kind = componentMethod
  · exact (target?_none_iff kind).2 (((target?_none_iff kind).1 h).outcome ids)
  · rw [target?, if_neg (by simpa using kind)]

/-- A lifted page brings in no faults of its own: the actions that are left are given ones. -/
theorem outcome_faults (c : Catalogue) (p : Page) : faults (outcome c p) ⊆ faults p := by
  have more : (draft (outcome c p)).sheet.map (·.id) ⊆ (draft p).sheet.map (·.id) := by
    intro id mem
    rw [← Sheet.ids_grow 0, grow_draft] at mem ⊢
    obtain ⟨n', there, rfl⟩ := List.mem_map.1 mem
    obtain ⟨n, walked, face, -⟩ := outcome_walk c p n' there
    exact List.mem_map.2 ⟨n, walked, (congrArg (·.id) face).symm⟩
  rintro f ⟨a, there, kind, texts⟩
  obtain ⟨n', mem, e, prop, action⟩ := carried there
  obtain ⟨n, walked, -, fates⟩ := outcome_walk c p n' mem
  have given : ∃ v, (e.1, v) ∈ n.layer.props ∧ a ∈ v.actions := by
    have fate := fates e prop
    obtain ⟨key, v'⟩ := e
    cases fate with
    | given found =>
      rw [PropOf.actions_map] at action
      exact ⟨_, found, by rwa [PropOf.actions_map]⟩
    | lifted found =>
      rw [PropOf.actions_map, actions_ofActions] at action
      obtain ⟨b, mem, rfl⟩ := List.mem_map.1 action
      have same : lifted c (draft p).sheet b = b := by
        rw [lifted] at kind ⊢
        split at kind
        · exact absurd (show callMethod = componentMethod from kind) (by decide)
        · rfl
      rw [same]
      exact ⟨_, found, mem⟩
    | bound => cases action
  obtain ⟨v, found, action⟩ := given
  exact ⟨a, carries_of_walk walked found action, kind, checkTexts_mono more texts⟩

theorem outcome_idle {c : Catalogue} {q : Page} (keys : q.root.DistinctProps)
    (settled : ∀ n ∈ q.root.walk, ∀ e ∈ n.layer.props, IsSettled c (draft q).sheet e.2) :
    outcome c q = q := by
  have idle : finished c q = draft q := by
    refine turns_idle (Sheet.distinctKeys_ofNode keys) fun i e mem => ?_
    obtain ⟨l, found, there⟩ := Sheet.mem_props_iff.1 mem
    obtain ⟨ρ, -, walked⟩ := Sheet.mem_ofNode (List.mem_of_getElem? found)
    exact (isSettled_map ρ).1 (settled _ walked _ (NodeOf.mem_props_map.2 ⟨e, there, rfl⟩))
  rw [outcome, idle, grow_draft, Node.walk_eq]
  rfl

end Outcome

/-- On a page with different identifiers, whose nodes have each property once and values of one kind
each, lifting leaves only actions for component methods that cannot be resolved, neither before nor
after; and lifting the page again leaves its tree, states and functions as they are. Only a setting without a
text can keep the page from being lifted. -/
theorem page_complete_and_idempotent (c : Catalogue) (p : Page) (ids : p.root.DistinctIds)
    (keys : p.root.DistinctProps) (uniform : p.root.Uniform) (log : List Notice) :
    Job.Meets (faults p) (fun q =>
      (q.root.Everywhere fun layer => ∀ e ∈ layer.props, ∀ a ∈ e.2.allActions,
        a.kind = componentMethod → Unresolvable c p.root a ∧ Unresolvable c q.root a) ∧
      ∀ log', Job.Meets (faults p) (· = q) (page c q log').1) (page c p log).1 := by
  have uniform' := outcome_uniform c uniform
  have settled := outcome_settled c keys
  refine (page_ends c p log).mono ?_ (Set.Subset.refl _)
  rintro _ rfl
  refine ⟨?_, fun log' => ?_⟩
  · refine Node.everywhere_of_walk uniform' fun n mem e there a carried kind => ?_
    have action := PropOf.allActions_uniform (uniform' n mem e there) carried
    have unresolvable := (target?_none_iff kind).1 ((settled n mem e there).targets a action)
    exact ⟨unresolvable, unresolvable.outcome ids⟩
  · have idle : outcome c (outcome c p) = outcome c p := by
      refine outcome_idle (outcome_keys c keys) fun n mem e there => ?_
      obtain ⟨targets, single⟩ := settled n mem e there
      exact ⟨fun a action => target?_outcome ids (targets a action), single⟩
    have again := page_ends c (outcome c p) log'
    rw [idle] at again
    exact again.mono (fun _ same => same) (outcome_faults c p)

theorem dialogPage_complete_and_idempotent : dialogPage.root.DistinctIds ∧
    dialogPage.root.DistinctProps ∧ dialogPage.root.Uniform ∧
    ∃ q, (page .default dialogPage []).1 = .ok q ∧
      (q.root.Everywhere fun layer => ∀ e ∈ layer.props, ∀ a ∈ e.2.allActions,
        a.kind = componentMethod →
          Unresolvable .default dialogPage.root a ∧ Unresolvable .default q.root a) ∧
      ∀ log', (page .default q log').1 = .ok q := by
  have uniform : dialogPage.root.Uniform := by
    unfold Node.Uniform
    decide
  have complete := page_complete_and_idempotent
    .default dialogPage dialogPage_distinctIds dialogPage_distinctProps uniform []
  rw [dialogPage_ends, dialogPage_faults] at complete
  obtain ⟨left, again⟩ := complete
  refine ⟨dialogPage_distinctIds, dialogPage_distinctProps, uniform, _, dialogPage_ends, left, fun log' => ?_⟩
  obtain ⟨q, ends, rfl⟩ := Job.Completes.gives again log'
  exact ends

end Pagesmith.Lifting
