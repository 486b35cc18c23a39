import Pagesmith.Proofs.Lifting.Trace

/-!
What lifting changes. The value of a property changes in two ways only: a target binds it, or its
actions are lifted in the turn of its node. Both are followed from step to step, by the number of
the node and the key.
-/

namespace Pagesmith.Lifting

variable {c : Catalogue} {s : Sheet} {d d' d'' : Draft}

/-- What becomes of a value that no target binds. -/
inductive Stage (c : Catalogue) (s : Sheet) (v : PropOf Ref) : PropOf Ref → Prop
  | same : Stage c s v v
  | lifted (asking : asks v = true) : Stage c s v (ofActions (v.actions.map (lifted c s)))

/-- Of the two pages the second one has for each key of each node what becomes of the value in the
first one, unless one of these targets binds it. -/
def Traced (c : Catalogue) (s : Sheet) (ts : List Target) (d d' : Draft) : Prop := ∀ i key,
  (∃ t ∈ ts, t.index = i ∧ t.Binds key) ∨
    Option.Rel (Stage c s) ((d.sheet.props i).lookup key) ((d'.sheet.props i).lookup key)

theorem Stage.trans {v v' v'' : PropOf Ref} (first : Stage c s v v') (second : Stage c s v' v'') :
    Stage c s v v'' := by
  cases first with
  | same => exact second
  | lifted asking =>
    cases second with
    | same => exact .lifted asking
    | lifted =>
      rw [actions_ofActions, map_lifted_lifted]
      exact .lifted asking

theorem rel_stage_refl (o : Option (PropOf Ref)) : Option.Rel (Stage c s) o o := by
  cases o with
  | none => exact .none
  | some v => exact .some .same

variable {ts ts' : List Target}

theorem Traced.refl (c : Catalogue) (s : Sheet) (d : Draft) : Traced c s [] d d :=
  fun _ _ => .inr (rel_stage_refl _)

theorem Traced.trans (first : Traced c s ts d d') (second : Traced c s ts' d' d'') :
    Traced c s (ts ++ ts') d d'' := by
  intro i key
  obtain ⟨t, mem, binds⟩ | before := first i key
  · exact .inl ⟨t, List.mem_append_left _ mem, binds⟩
  obtain ⟨t, mem, binds⟩ | after := second i key
  · exact .inl ⟨t, List.mem_append_right _ mem, binds⟩
  refine .inr ?_
  generalize (d.sheet.props i).lookup key = o, (d'.sheet.props i).lookup key = o',
    (d''.sheet.props i).lookup key = o'' at before after
  cases before with
  | none =>
    cases after
    exact .none
  | some stage =>
    cases after with
    | some stage' => exact .some (stage.trans stage')

/-- A property has the value it has been given; the others keep theirs. -/
theorem lookup_setProp (index i : Nat) (key k : String) (v : PropOf Ref) (s : Sheet) :
    ((s.setProp index key v).props i).lookup k =
      if i = index ∧ k = key ∧ index < s.length then some v else (s.props i).lookup k := by
  by_cases same : i = index
  · subst same
    by_cases bound : i < s.length
    · rw [Sheet.props_setProp_self bound, Table.lookup_insert]
      simp [bound]
    · simp [Sheet.props, Sheet.setProp, bound]
  · rw [Sheet.props_setProp_other same, if_neg fun h => same h.1]

theorem traced_apply (t : Target) (d : Draft) : Traced c s [t] d (apply t d).1 := by
  have bound {d' : Draft} {key : String} (binds : t.Binds key) (v : PropOf Ref)
      (h : Traced c s [t] d d') {d'' : Draft} (sheet : d''.sheet = d'.sheet.setProp t.index key v) :
      Traced c s [t] d d'' := by
    intro i k
    rw [sheet, lookup_setProp]
    split
    · next here =>
      obtain ⟨rfl, rfl, -⟩ := here
      exact .inl ⟨t, List.mem_singleton.2 rfl, rfl, binds⟩
    · exact h i k
  refine t.apply_induction ?_ fun m method event closing d' h => ?_
  · exact bound .drive _ (fun _ _ => .inr (rel_stage_refl _)) rfl
  · exact bound (.close method closing) _ h rfl

theorem traced_effects (as : List Action) (d : Draft) :
    Traced c s (as.filterMap (target? c d.sheet)) d (as.foldl (effect c) d) := by
  induction as generalizing d with
  | nil => exact .refl c s d
  | cons a r ih =>
    have later : target? c (effect c d a).sheet = target? c d.sheet :=
      funext fun b => target?_bare (effect_bare d a) b
    have rest := ih (effect c d a)
    rw [later] at rest
    rw [List.foldl_cons]
    cases found : target? c d.sheet a with
    | none =>
      have same : effect c d a = d := by rw [effect, found]
      rw [List.filterMap_cons_none found]
      rwa [same] at rest ⊢
    | some t =>
      have step : effect c d a = (apply t d).1 := by rw [effect, found]
      rw [List.filterMap_cons_some found]
      rw [step] at rest ⊢
      exact (traced_apply t d).trans rest

/-- The turn of a node goes through the properties that the node had when it came, so what it writes
comes from these, whatever has been bound meanwhile. -/
theorem Traced.turn {d₀ : Draft} (distinct : d₀.sheet.DistinctKeys) {index : Nat}
    {ps : List (String × PropOf Ref)} (given : ps ⊆ d₀.sheet.props index)
    (bare : d.sheet.map NodeOf.bare = s.map NodeOf.bare) (h : Traced c s ts d₀ d) :
    Traced c s (ts ++ turnTargets c s ps) d₀ (turn c index ps d) := by
  induction ps generalizing d ts with
  | nil => rwa [turnTargets, List.flatMap_nil, List.append_nil]
  | cons e r ih =>
    obtain ⟨key, p⟩ := e
    rw [List.cons_subset] at given
    rw [Lifting.turn, turnTargets, List.flatMap_cons, ← List.append_assoc]
    split
    · next asking =>
      have effects := h.trans (traced_effects p.actions d)
      rw [funext (target?_bare bare)] at effects
      refine ih given.2 ((Sheet.bare_setProp ..).trans ((effects_bare p.actions d).trans bare)) ?_
      intro i k
      dsimp only
      rw [lookup_setProp]
      split
      · next here =>
        obtain ⟨rfl, rfl, -⟩ := here
        rw [Table.lookup_of_mem (distinct.props i) given.1, lifted_bare bare]
        exact .inr (.some (.lifted asking))
      · exact effects i k
    · next quiet =>
      have none : p.actions.filterMap (target? c s) = [] :=
        List.filterMap_eq_nil_iff.2 (isSettled_quiet (by simpa using quiet)).targets
      rw [none, List.append_nil]
      exact ih given.2 bare h

theorem traced_turns (indices : List Nat) (distinct : d.sheet.DistinctKeys)
    (bare : d.sheet.map NodeOf.bare = s.map NodeOf.bare) :
    Traced c s (turnsTargets c indices d) d (turns c indices d) := by
  induction indices generalizing d with
  | nil => exact .refl c s d
  | cons index r ih =>
    have first := (Traced.refl c s d).turn distinct (List.Subset.refl (d.sheet.props index)) bare
    have bare' := (turn_bare (c := c) index (d.sheet.props index) d).trans bare
    have rest := ih (turn_distinct distinct) bare'
    have same : turnTargets c d.sheet = turnTargets c s := by
      funext ps
      rw [turnTargets, funext (target?_bare bare), turnTargets]
    rw [turnsTargets, same]
    exact first.trans rest

/-- A lifted page has for each key of each node what becomes of the given value, unless a target of
the page binds it. -/
theorem traced_finished (c : Catalogue) {p : Page} (keys : p.root.DistinctProps) :
    Traced c (draft p).sheet (liftedTargets c p) (draft p) (finished c p) :=
  traced_turns _ (Sheet.distinctKeys_ofNode keys) rfl

end Pagesmith.Lifting
