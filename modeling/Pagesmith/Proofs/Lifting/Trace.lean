import Pagesmith.Proofs.Lifting.Closed
import Pagesmith.Proofs.Lifting.Target

/-!
The components that lifting lifts. An action that is lifted has a target, and a page that had no
states and no functions has afterwards those of the targets, each once, and refers to nothing else.
-/

namespace Pagesmith

/-- An entry of the sheet with this identifier refers to the name. -/
def Sheet.Refers (s : Sheet) (id name : String) : Prop :=
  ∃ l ∈ s, l.id = id ∧ name ∈ l.references

namespace Lifting

variable {c : Catalogue} {s : Sheet} {d : Draft} {id name : String}

theorem references_insert {props : List (String × PropOf Ref)} {key : String} {p : PropOf Ref}
    (h : name ∈ (Table.insert key p props).flatMap fun e => e.2.references) :
    name ∈ p.references ∨ name ∈ props.flatMap fun e => e.2.references := by
  obtain ⟨e, mem, refers⟩ := List.mem_flatMap.1 h
  obtain rfl | mem := Table.eq_or_mem_of_mem_insert mem
  · exact .inl refers
  · exact .inr (List.mem_flatMap.2 ⟨e, mem, refers⟩)

theorem refers_setProp {index : Nat} {key : String} {p : PropOf Ref}
    (h : (s.setProp index key p).Refers id name) :
    s.Refers id name ∨ s[index]?.map (·.id) = some id ∧ name ∈ p.references := by
  obtain ⟨l, mem, own, refers⟩ := h
  obtain ⟨i, there⟩ := List.mem_iff_getElem?.1 mem
  rw [Sheet.setProp, List.getElem?_modify] at there
  cases found : s[i]? with
  | none =>
    rw [found] at there
    cases there
  | some l' =>
    rw [found] at there
    obtain rfl := Option.some.inj there
    dsimp only at own refers
    have mem' := List.mem_of_getElem? found
    by_cases same : index = i
    · rw [if_pos same] at own refers
      obtain refers | refers := references_insert refers
      · rw [same, found]
        exact .inr ⟨congrArg some own, refers⟩
      · exact .inl ⟨l', mem', own, refers⟩
    · rw [if_neg same] at own refers
      exact .inl ⟨l', mem', own, refers⟩

theorem id_at_bare {s s' : Sheet} (h : s.map NodeOf.bare = s'.map NodeOf.bare) (index : Nat) :
    s[index]?.map (·.id) = s'[index]?.map (·.id) := by
  have at_index (s : Sheet) : (s.map NodeOf.bare)[index]?.map (·.id) = s[index]?.map (·.id) := by
    rw [List.getElem?_map, Option.map_map]
    rfl
  rw [← at_index s, h, at_index]

namespace Target

/-- The name of a page function that lifting sets up for the component: the one for the method, or
one for a closing event. -/
inductive Function (t : Target) : String → Prop
  | method : Function t t.handler
  | closing {m : ComponentMethod} {event : String} (method : m ∈ t.material.methods)
    (closes : closingEvent? t.binding.prop m = some event) :
    Function t (closingMethod m event t.id t.state).1

/-- The entry sets the state of the component by one of its functions, to the value of its method or
to one that says that it is closed. -/
def Sets (t : Target) (e : String × PageMethod) : Prop :=
  t.Function e.1 ∧ ∃ value fromEvent, e.2 = .setter t.state value fromEvent ∧
    value ∈ [t.binding.value, .null, .bool false]

theorem sets_closing {t : Target} {m : ComponentMethod} {event : String}
    (method : m ∈ t.material.methods) (closes : closingEvent? t.binding.prop m = some event) :
    t.Sets (closingMethod m event t.id t.state) := by
  refine ⟨.closing method closes, ?_⟩
  rw [closingMethod]
  split
  · exact ⟨_, _, rfl, by simp⟩
  · exact ⟨_, _, rfl, by simp⟩

variable (t : Target)

theorem apply_states : (apply t d).1.states = Table.insertNew t.state (.bool false) d.states :=
  @apply_induction (fun d' => d'.states = _) t d rfl fun _ _ _ _ _ same => same

theorem apply_methods {e : String × PageMethod} (mem : e ∈ (apply t d).1.methods) :
    e ∈ d.methods ∨ t.Sets e := by
  refine @apply_induction (fun d' => ∀ e ∈ d'.methods, e ∈ d.methods ∨ t.Sets e) t d ?_ ?_ e mem
  · intro e mem
    obtain rfl | mem := Table.eq_or_mem_of_mem_insert mem
    · exact .inr ⟨.method, _, _, rfl, by simp⟩
    · exact .inl mem
  · intro m method event closes d' h e mem
    obtain rfl | mem := Table.mem_of_mem_insertNew mem
    · exact .inr (sets_closing method closes)
    · exact h e mem

/-- The page with the closing events of these methods bound. -/
def closeAll (methods : List ComponentMethod) (d : Draft) : Draft :=
  methods.foldl (fun d m => match closingEvent? t.binding.prop m with
    | none => d
    | some event => t.close m event d) d

theorem apply_eq : (apply t d).1 = t.closeAll t.material.methods (t.drive d) := rfl

/-- Functions that are there stay when closing events are bound, and each of these gets its own. -/
theorem closeAll_functions (methods : List ComponentMethod) (d : Draft) :
    d.methods.map (·.1) ⊆ (t.closeAll methods d).methods.map (·.1) ∧
      ∀ m ∈ methods, ∀ event, closingEvent? t.binding.prop m = some event →
        (closingMethod m event t.id t.state).1 ∈ (t.closeAll methods d).methods.map (·.1) := by
  induction methods generalizing d with
  | nil => exact ⟨List.Subset.refl _, fun m mem => nomatch mem⟩
  | cons m r ih =>
    rw [closeAll, List.foldl_cons]
    cases closes : closingEvent? t.binding.prop m with
    | none =>
      obtain ⟨kept, bound⟩ := ih d
      refine ⟨kept, List.forall_mem_cons.2 ⟨fun event closes' => ?_, bound⟩⟩
      rw [closes] at closes'
      cases closes'
    | some event =>
      obtain ⟨kept, bound⟩ := ih (t.close m event d)
      refine ⟨fun name mem => kept ((grows_close t m event d).methods mem),
        List.forall_mem_cons.2 ⟨fun event' closes' => kept ?_, bound⟩⟩
      obtain rfl := Option.some.inj (closes.symm.trans closes')
      exact Table.mem_keys_insertNew_self

theorem apply_functions : name ∈ (apply t d).1.methods.map (·.1) ↔
    name ∈ d.methods.map (·.1) ∨ t.Function name := by
  constructor
  · intro mem
    obtain ⟨e, there, rfl⟩ := List.mem_map.1 mem
    exact (t.apply_methods there).imp List.mem_map_of_mem And.left
  · rw [apply_eq]
    obtain ⟨kept, bound⟩ := t.closeAll_functions t.material.methods (t.drive d)
    rintro (mem | ⟨⟩ | ⟨method, closes⟩)
    · exact kept ((grows_drive t d).methods mem)
    · exact kept Table.mem_keys_insert_self
    · exact bound _ method _ closes

theorem apply_refers (own : d.sheet[t.index]?.map (·.id) = some t.id)
    (h : (apply t d).1.sheet.Refers id name) :
    d.sheet.Refers id name ∨ id = t.id ∧ (name = t.state ∨ t.Function name) := by
  have all := @apply_induction (fun d' => d'.sheet.map NodeOf.bare = d.sheet.map NodeOf.bare ∧
    ∀ id name, d'.sheet.Refers id name →
      d.sheet.Refers id name ∨ id = t.id ∧ (name = t.state ∨ t.Function name)) t d ?_ ?_
  · exact all.2 id name h
  · refine ⟨Sheet.bare_setProp .., fun id name refers => ?_⟩
    obtain refers | ⟨there, refers⟩ := refers_setProp refers
    · exact .inl refers
    · rw [own] at there
      exact .inr ⟨(Option.some.inj there).symm, .inl (List.mem_singleton.1 refers)⟩
  · rintro m method event closes d' ⟨bare, ih⟩
    refine ⟨(Sheet.bare_setProp ..).trans bare, fun id name refers => ?_⟩
    obtain refers | ⟨there, refers⟩ := refers_setProp refers
    · exact ih id name refers
    · rw [id_at_bare bare, own] at there
      obtain rfl := List.mem_singleton.1 refers
      exact .inr ⟨(Option.some.inj there).symm, .inr (.closing method closes)⟩

end Target

/-- The targets of the actions that are lifted in the turn of a node with these properties. -/
def turnTargets (c : Catalogue) (s : Sheet) (ps : List (String × PropOf Ref)) : List Target :=
  ps.flatMap fun e => e.2.actions.filterMap (target? c s)

/-- The targets of the actions that are lifted in the turns of these nodes. -/
def turnsTargets (c : Catalogue) : List Nat → Draft → List Target
  | [], _ => []
  | index :: r, d =>
    turnTargets c d.sheet (d.sheet.props index) ++
      turnsTargets c r (turn c index (d.sheet.props index) d)

/-- The targets of the actions of a page that are lifted. -/
def liftedTargets (c : Catalogue) (p : Page) : List Target :=
  turnsTargets c (List.range (Sheet.ofNode 0 p.root).length) (draft p)

/-- The states, the functions and the references of a page are those of these targets. -/
structure Owns (ts : List Target) (d : Draft) : Prop where
  states : ∀ name, name ∈ d.states.map (·.1) ↔ ∃ t ∈ ts, name = t.state
  functions : ∀ name, name ∈ d.methods.map (·.1) ↔ ∃ t ∈ ts, t.Function name
  setters : ∀ e ∈ d.methods, ∃ t ∈ ts, t.Sets e
  references : ∀ id name, d.sheet.Refers id name →
    ∃ t ∈ ts, t.id = id ∧ (name = t.state ∨ t.Function name)

variable {ts : List Target}

theorem Owns.apply (h : Owns ts d) {t : Target} (own : d.sheet[t.index]?.map (·.id) = some t.id) :
    Owns (ts ++ [t]) (Lifting.apply t d).1 where
  states name := by
    rw [t.apply_states, Table.mem_keys_insertNew, h.states]
    simp [or_and_right, exists_or]
  functions name := by
    rw [t.apply_functions, h.functions]
    simp [or_and_right, exists_or]
  setters e mem := by
    obtain mem | sets := t.apply_methods mem
    · obtain ⟨t', there, sets⟩ := h.setters e mem
      exact ⟨t', List.mem_append_left _ there, sets⟩
    · exact ⟨t, by simp, sets⟩
  references id name refers := by
    obtain refers | ⟨same, names⟩ := t.apply_refers own refers
    · obtain ⟨t', there, names⟩ := h.references id name refers
      exact ⟨t', List.mem_append_left _ there, names⟩
    · exact ⟨t, by simp, same.symm, names⟩

theorem Owns.effects (h : Owns ts d) (as : List Action) :
    Owns (ts ++ as.filterMap (target? c d.sheet)) (as.foldl (effect c) d) := by
  induction as generalizing ts d with
  | nil => rwa [List.filterMap_nil, List.append_nil]
  | cons a r ih =>
    have later : target? c (effect c d a).sheet = target? c d.sheet :=
      funext fun b => target?_bare (effect_bare d a) b
    rw [List.foldl_cons]
    cases found : target? c d.sheet a with
    | none =>
      have same : effect c d a = d := by rw [effect, found]
      rw [List.filterMap_cons_none found, same]
      exact ih h
    | some t =>
      have step : effect c d a = (Lifting.apply t d).1 := by rw [effect, found]
      have first : Owns (ts ++ [t]) (effect c d a) := step ▸ h.apply (id_of_target found)
      have rest := ih first
      rwa [later, List.append_assoc, List.singleton_append, ← List.filterMap_cons_some found] at rest

/-- Actions instead of a property refer to nothing. -/
theorem Owns.setActions (h : Owns ts d) (index : Nat) (key : String) (as : List Action) :
    Owns ts { d with sheet := d.sheet.setProp index key (ofActions as) } where
  states := h.states
  functions := h.functions
  setters := h.setters
  references id name refers := by
    obtain refers | ⟨-, refers⟩ := refers_setProp refers
    · exact h.references id name refers
    · rw [(references_ofActions as).1] at refers
      cases refers

theorem Owns.turn (h : Owns ts d) (index : Nat) (ps : List (String × PropOf Ref)) :
    Owns (ts ++ turnTargets c d.sheet ps) (turn c index ps d) := by
  induction ps generalizing ts d with
  | nil => rwa [turnTargets, List.flatMap_nil, List.append_nil]
  | cons e r ih =>
    obtain ⟨key, p⟩ := e
    rw [Lifting.turn, turnTargets, List.flatMap_cons, ← List.append_assoc]
    split
    · have effects : Owns _ (p.actions.foldl (effect c) d) := h.effects p.actions
      have after := effects.setActions index key (p.actions.map (lifted c d.sheet))
      have rest := ih after
      have later : target? c ((p.actions.foldl (effect c) d).sheet.setProp index key
          (ofActions (p.actions.map (lifted c d.sheet)))) = target? c d.sheet :=
        funext fun a => target?_bare ((Sheet.bare_setProp ..).trans (effects_bare p.actions d)) a
      rwa [turnTargets, later] at rest
    · next quiet =>
      have none : p.actions.filterMap (target? c d.sheet) = [] :=
        List.filterMap_eq_nil_iff.2 (isSettled_quiet (by simpa using quiet)).targets
      rw [none, List.append_nil]
      exact ih h

theorem Owns.turns (h : Owns ts d) (indices : List Nat) :
    Owns (ts ++ turnsTargets c indices d) (turns c indices d) := by
  induction indices generalizing ts d with
  | nil => rwa [turnsTargets, List.append_nil]
  | cons index r ih =>
    rw [turnsTargets, ← List.append_assoc]
    exact ih (h.turn index _)

/-- A lifted page that had no states, no functions and no references before has those of the targets
that have been lifted. -/
theorem finished_owns (c : Catalogue) {p : Page} (states : p.states = []) (methods : p.methods = [])
    (plain : p.root.Plain) : Owns (liftedTargets c p) (finished c p) := by
  have start : Owns [] (draft p) := by
    refine ⟨by simp [draft, states], by simp [draft, methods], by simp [draft, methods], ?_⟩
    rintro id name ⟨l, mem, -, refers⟩
    obtain ⟨ρ, -, walked⟩ := Sheet.mem_ofNode mem
    obtain ⟨none, -⟩ := plain.walk _ walked
    rw [NodeOf.references_map] at none
    rw [none] at refers
    cases refers
  exact start.turns _

theorem turnsTargets_target (indices : List Nat) (d : Draft) :
    ∀ t ∈ turnsTargets c indices d, ∃ a, target? c d.sheet a = some t := by
  induction indices generalizing d with
  | nil => exact fun t mem => nomatch mem
  | cons index r ih =>
    intro t mem
    obtain here | later := List.mem_append.1 mem
    · obtain ⟨e, -, mem⟩ := List.mem_flatMap.1 here
      obtain ⟨a, -, found⟩ := List.mem_filterMap.1 mem
      exact ⟨a, found⟩
    · obtain ⟨a, found⟩ := ih _ t later
      rw [target?_bare (turn_bare index _ d)] at found
      exact ⟨a, found⟩

/-- What is lifted is a method of a component of the page that drives a property. -/
theorem liftedTargets_resolve {p : Page} {t : Target} (mem : t ∈ liftedTargets c p) :
    ∃ a n, Resolves c p.root a n t.material t.method t.binding ∧ n ∈ p.root.walk ∧
      n.layer.id = t.id := by
  obtain ⟨a, found⟩ := turnsTargets_target _ _ t mem
  obtain ⟨n, resolves, own⟩ := target?_resolves found
  exact ⟨a, n, resolves, (Node.find?_mem resolves.node).1, own⟩

/-- Whatever a node of the lifted tree refers to comes from a target with the node's identifier. -/
theorem outcome_refers {p : Page} (owns : Owns (liftedTargets c p) (finished c p)) :
    ∀ n ∈ (outcome c p).root.walk, ∀ name ∈ n.layer.references,
      ∃ t ∈ liftedTargets c p, t.id = n.layer.id ∧ (name = t.state ∨ t.Function name) := by
  have alike : Sheet.Alike (fun l l' => Redrawn c (draft p).sheet (finished c p) l l' ∧
      l' ∈ (finished c p).sheet) p.root (outcome c p).root :=
    alike_outcome (fun l l' h => narrows_redrawn l l' h.1)
      (forall₂_imp_mem (follows_finished c p).sheet fun l l' mem redrawn => ⟨redrawn, mem⟩)
  intro n' mem name refers
  obtain ⟨n, -, alike⟩ := alike.places (fun l l' h => narrows_redrawn l l' h.1) n' mem
  obtain @⟨l, l', ρ, ρ', ⟨-, there⟩, -⟩ := alike
  change name ∈ (l'.map ρ').references at refers
  rw [NodeOf.references_map] at refers
  exact owns.references l'.id name ⟨l', there, rfl, refers⟩

end Lifting

end Pagesmith
