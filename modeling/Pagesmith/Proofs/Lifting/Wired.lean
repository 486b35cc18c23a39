import Pagesmith.Proofs.Lifting.Became
import Pagesmith.Proofs.Lifting.Changes
import Pagesmith.Proofs.Lifting.Functions

/-!
What stands behind a lifted call. The function that is called sets a state to the value of the method,
the property that the method drives is bound to that state, and the state is false at first. A target
sets this up when an action is lifted, and no action that is lifted later takes it apart.
-/

namespace Pagesmith.Lifting

open Text

/-- The function of the target sets its state, to which the driven property is bound. -/
structure Wired (t : Target) (d : Draft) : Prop where
  method : d.methods.lookup t.handler = some (.setter t.state t.binding.value false)
  state : d.states.lookup t.state = some (.bool false)
  prop : (d.sheet.props t.index).lookup t.binding.prop = some (.reference t.state)

/-- What the second target sets up agrees with what the first one has set up. -/
structure Agrees (t t' : Target) : Prop where
  method : t.handler = t'.handler →
    PageMethod.setter t.state t.binding.value false = .setter t'.state t'.binding.value false
  prop : t.index = t'.index → t.binding.prop = t'.binding.prop → t.state = t'.state
  closing : ∀ m ∈ t'.material.methods, ∀ event, closingEvent? t'.binding.prop m = some event →
    event ≠ t.binding.prop

/-- A page on which the target can be wired: states are false, and no actions wait in the property
that is to be driven. -/
structure Ready (t : Target) (d : Draft) : Prop where
  states : ∀ e ∈ d.states, e.2 = .bool false
  inside : t.index < d.sheet.length
  quiet : ∀ v, (d.sheet.props t.index).lookup t.binding.prop = some v → v.actions = []

variable {c : Catalogue} {s : Sheet} {d d' : Draft} {t t' : Target} {a : Action}

section Effects

/-- Another property than the driven one may be set. -/
theorem Wired.setProp (h : Wired t d) {index : Nat} {key : String} (v : PropOf Ref)
    (apart : t.index = index → t.binding.prop ≠ key) :
    Wired t { d with sheet := d.sheet.setProp index key v } where
  method := h.method
  state := h.state
  prop := by
    rw [lookup_setProp, if_neg fun here => apart here.1 here.2.1]
    exact h.prop

theorem Wired.close (h : Wired t d) (agrees : Agrees t t') {m : ComponentMethod} {event : String}
    (method : m ∈ t'.material.methods) (closing : closingEvent? t'.binding.prop m = some event) :
    Wired t (t'.close m event d) where
  method := by
    have kept := h.method
    rw [Target.close, Table.lookup_insertNew, kept, Option.some_or]
  state := h.state
  prop := by
    rw [Target.close, lookup_setProp, if_neg, h.prop]
    rintro ⟨-, same, -⟩
    exact agrees.closing m method event closing same.symm

theorem Wired.apply (h : Wired t d) (agrees : Agrees t t') : Wired t (apply t' d).1 := by
  refine t'.apply_induction ⟨?_, ?_, ?_⟩ fun m method event closing d h => h.close agrees method closing
  · rw [Target.drive, Table.lookup_insert]
    split
    · next same => rw [agrees.method (eq_of_beq same)]
    · exact h.method
  · rw [Target.drive, Table.lookup_insertNew, h.state, Option.some_or]
  · rw [Target.drive, lookup_setProp]
    split
    · next here => rw [agrees.prop here.1 here.2.1]
    · exact h.prop

/-- A target wires itself. -/
theorem Ready.wire (h : Ready t d) (agrees : Agrees t t) : Wired t (apply t d).1 := by
  refine t.apply_induction ⟨?_, ?_, ?_⟩ fun m method event closing d h => h.close agrees method closing
  · rw [Target.drive, Table.lookup_insert, if_pos (beq_self_eq_true _)]
  · rw [Target.drive, Table.lookup_insertNew, if_pos (beq_self_eq_true _)]
    cases found : d.states.lookup t.state with
    | none => rfl
    | some v => exact congrArg some (h.states _ (Table.mem_of_lookup found))
  · rw [Target.drive, lookup_setProp, if_pos ⟨rfl, rfl, h.inside⟩]

theorem Ready.setProp (h : Ready t d) {index : Nat} {key : String} {v : PropOf Ref}
    (sheet : d'.sheet = d.sheet.setProp index key v) (states : ∀ e ∈ d'.states, e.2 = .bool false)
    (quiet : t.index = index → t.binding.prop = key → v.actions = []) : Ready t d' where
  states := states
  inside := by
    rw [sheet, Sheet.setProp, List.length_modify]
    exact h.inside
  quiet w found := by
    rw [sheet, lookup_setProp] at found
    split at found
    · next here =>
      obtain rfl := Option.some.inj found
      exact quiet here.1 here.2.1
    · exact h.quiet w found

theorem Ready.apply (h : Ready t d) (t' : Target) : Ready t (apply t' d).1 := by
  refine t'.apply_induction ?_ fun m _ event _ d h => h.setProp rfl h.states fun _ _ => rfl
  refine h.setProp rfl (fun e mem => ?_) fun _ _ => rfl
  obtain rfl | mem := Table.mem_of_mem_insertNew mem
  · rfl
  · exact h.states e mem

theorem Ready.effects (h : Ready t d) (as : List Action) : Ready t (as.foldl (effect c) d) := by
  induction as generalizing d with
  | nil => exact h
  | cons a r ih =>
    refine ih ?_
    rw [effect]
    split
    · exact h.apply _
    · exact h

/-- Actions that are lifted keep what is wired, and the action for a target wires it. -/
theorem wired_effects {as : List Action} (bare : d.sheet.map NodeOf.bare = s.map NodeOf.bare)
    (ready : Ready t d) (found : target? c s a = some t)
    (agree : ∀ b t', target? c s b = some t' → Agrees t t') (h : Wired t d ∨ a ∈ as) :
    Wired t (as.foldl (effect c) d) := by
  induction as generalizing d with
  | nil => exact h.resolve_right (List.not_mem_nil)
  | cons b r ih =>
    have ready' : Ready t (effect c d b) := ready.effects [b]
    refine ih ((effect_bare d b).trans bare) ready' ?_
    rw [List.mem_cons] at h
    have step (t') (target : target? c s b = some t') : effect c d b = (apply t' d).1 := by
      rw [effect, target?_bare bare, target]
    obtain wired | rfl | later := h
    · cases target : target? c s b with
      | none =>
        rw [effect, target?_bare bare, target]
        exact .inl wired
      | some t' =>
        rw [step t' target]
        exact .inl (wired.apply (agree b t' target))
    · rw [step t found]
      exact .inl (ready.wire (agree a t found))
    · exact .inr later

end Effects

section Turns

/-- The property of the node with this number is a reference. -/
def Refers (d : Draft) (i : Nat) (key : String) : Prop :=
  ∃ name, (d.sheet.props i).lookup key = some (.reference name)

/-- The property stays as it is, or it becomes a reference. -/
def Rests (d d' : Draft) (i : Nat) (key : String) : Prop :=
  (d'.sheet.props i).lookup key = (d.sheet.props i).lookup key ∨ Refers d' i key

/-- None of these properties of the node with the first number has actions and is the property of
this name of the node with the second one. -/
def Calm (index : Nat) (ps : List (String × PropOf Ref)) (i : Nat) (key : String) : Prop :=
  ∀ e ∈ ps, i = index → key = e.1 → e.2.actions = []

variable {d'' : Draft} {index i : Nat} {key : String} {p : PropOf Ref} {ps : List (String × PropOf Ref)}

theorem calm_of_lookup (distinct : d.sheet.DistinctKeys)
    (h : ∀ v, (d.sheet.props i).lookup key = some v → v.actions = []) :
    Calm index (d.sheet.props index) i key := by
  rintro e mem rfl rfl
  exact h e.2 (Table.lookup_of_mem (distinct.props i) mem)

theorem Refers.calm (h : Refers d i key) (distinct : d.sheet.DistinctKeys) :
    Calm index (d.sheet.props index) i key := by
  obtain ⟨name, there⟩ := h
  refine calm_of_lookup distinct fun v found => ?_
  obtain rfl := Option.some.inj (there.symm.trans found)
  rfl

theorem Rests.trans (h : Rests d d' i key) (h' : Rests d' d'' i key) : Rests d d'' i key := by
  obtain same | refers := h'
  · rwa [Rests, Refers, same]
  · exact .inr refers

theorem Rests.refers (h : Rests d d' i key) (refers : Refers d i key) : Refers d' i key := by
  obtain same | refers' := h
  · rwa [Refers, same]
  · exact refers'

theorem rests_apply (t : Target) (d : Draft) : Rests d (apply t d).1 i key := by
  have bound {d' d'' : Draft} {k name : String} (h : Rests d d' i key)
      (sheet : d''.sheet = d'.sheet.setProp t.index k (.reference name)) : Rests d d'' i key := by
    rw [Rests, Refers, sheet, lookup_setProp]
    split
    · exact .inr ⟨name, rfl⟩
    · exact h
  refine @Target.apply_induction (fun d' => Rests d d' i key) t d ?_ fun m _ event _ d' h => ?_
  · exact bound (.inl rfl) rfl
  · exact bound h rfl

theorem rests_effects (as : List Action) (d : Draft) : Rests d (as.foldl (effect c) d) i key := by
  induction as generalizing d with
  | nil => exact .inl rfl
  | cons a r ih =>
    refine .trans ?_ (ih (effect c d a))
    rw [effect]
    split
    · exact rests_apply _ d
    · exact .inl rfl

/-- A turn leaves properties at rest that it does not write to. -/
theorem rests_turn (calm : Calm index ps i key) (d : Draft) : Rests d (turn c index ps d) i key := by
  induction ps generalizing d with
  | nil => exact .inl rfl
  | cons e r ih =>
    obtain ⟨k, p⟩ := e
    obtain ⟨first, rest⟩ := List.forall_mem_cons.1 calm
    rw [turn]
    split
    · next asking =>
      have effects : Rests d (p.actions.foldl (effect c) d) i key := rests_effects p.actions d
      refine (effects.trans (.inl ?_)).trans (ih rest _)
      dsimp only
      rw [lookup_setProp, if_neg fun here => actions_of_asks asking (first here.1 here.2.1)]
    · exact ih rest d

theorem ready_turn (ready : Ready t d) (calm : Calm index ps t.index t.binding.prop) :
    Ready t (turn c index ps d) := by
  induction ps generalizing d with
  | nil => exact ready
  | cons e r ih =>
    obtain ⟨k, p⟩ := e
    obtain ⟨first, rest⟩ := List.forall_mem_cons.1 calm
    rw [turn]
    split
    · next asking =>
      have effects : Ready t (p.actions.foldl (effect c) d) := ready.effects p.actions
      refine ih (effects.setProp rfl effects.states fun here same => ?_) rest
      exact absurd (first here same) (actions_of_asks asking)
    · exact ih ready rest

/-- A turn that does not write to the driven property keeps what is wired, and it wires the target if
an action for it stands in one of the properties. -/
theorem wired_turn (bare : d.sheet.map NodeOf.bare = s.map NodeOf.bare) (ready : Ready t d)
    (calm : Calm index ps t.index t.binding.prop) (found : target? c s a = some t)
    (agree : ∀ b t', target? c s b = some t' → Agrees t t')
    (h : Wired t d ∨ ∃ e ∈ ps, a ∈ e.2.actions) : Wired t (turn c index ps d) := by
  induction ps generalizing d with
  | nil =>
    obtain wired | ⟨e, mem, -⟩ := h
    · exact wired
    · cases mem
  | cons e r ih =>
    obtain ⟨k, p⟩ := e
    obtain ⟨first, rest⟩ := List.forall_mem_cons.1 calm
    rw [turn]
    split
    · next asking =>
      have effects : Ready t (p.actions.foldl (effect c) d) := ready.effects p.actions
      have apart (here : t.index = index) (same : t.binding.prop = k) : False :=
        actions_of_asks asking (first here same)
      refine ih ((Sheet.bare_setProp ..).trans ((effects_bare p.actions d).trans bare))
        (effects.setProp rfl effects.states fun here same => (apart here same).elim) rest ?_
      obtain wired | ⟨e, mem, action⟩ := h
      · exact .inl ((wired_effects bare ready found agree (.inl wired)).setProp _ apart)
      · obtain rfl | mem := List.mem_cons.1 mem
        · exact .inl ((wired_effects bare ready found agree (.inr action)).setProp _ apart)
        · exact .inr ⟨e, mem, action⟩
    · next quiet =>
      refine ih bare ready rest (h.imp_right ?_)
      rintro ⟨e, mem, action⟩
      obtain rfl | mem := List.mem_cons.1 mem
      · have none := (isSettled_quiet (c := c) (s := s) (by simpa using quiet)).targets a action
        rw [found] at none
        cases none
      · exact ⟨e, mem, action⟩

/-- A target that is lifted in some turn is wired in the end. -/
theorem turns_wire {indices : List Nat} (distinct : d.sheet.DistinctKeys)
    (bare : d.sheet.map NodeOf.bare = s.map NodeOf.bare) (ready : Ready t d)
    (agree : ∀ b t', target? c s b = some t' → Agrees t t')
    (h : Wired t d ∨ t ∈ turnsTargets c indices d) (found : target? c s a = some t) :
    Wired t (turns c indices d) := by
  induction indices generalizing d with
  | nil => exact h.resolve_right List.not_mem_nil
  | cons index r ih =>
    have calm : Calm index (d.sheet.props index) t.index t.binding.prop :=
      calm_of_lookup distinct ready.quiet
    refine ih (turn_distinct distinct) ((turn_bare index _ d).trans bare) (ready_turn ready calm) ?_
    rw [turnsTargets, List.mem_append] at h
    obtain wired | here | later := h
    · exact .inl (wired_turn bare ready calm found agree (.inl wired))
    · obtain ⟨e, mem, here⟩ := List.mem_flatMap.1 here
      obtain ⟨b, action, found'⟩ := List.mem_filterMap.1 here
      rw [target?_bare bare] at found'
      exact .inl (wired_turn bare ready calm found' agree (.inr ⟨e, mem, action⟩))
    · exact .inr later

/-- An action that waits in a property is lifted when the turn of its node comes, unless the property
becomes a reference before. -/
theorem turns_lift {indices : List Nat} (distinct : d.sheet.DistinctKeys)
    (bare : d.sheet.map NodeOf.bare = s.map NodeOf.bare) (found : target? c s a = some t)
    (action : a ∈ p.actions)
    (h : Refers d i key ∨ i ∈ indices ∧ (d.sheet.props i).lookup key = some p) :
    t ∈ turnsTargets c indices d ∨ Refers (turns c indices d) i key := by
  induction indices generalizing d with
  | nil => exact .inr (h.resolve_right fun waits => List.not_mem_nil waits.1)
  | cons index r ih =>
    rw [turnsTargets, List.mem_append, or_assoc]
    by_cases here : t ∈ turnTargets c d.sheet (d.sheet.props index)
    · exact .inl here
    refine .inr (ih (turn_distinct distinct) ((turn_bare index _ d).trans bare) ?_)
    obtain refers | ⟨mem, waits⟩ := h
    · exact .inl ((rests_turn (refers.calm distinct) d).refers refers)
    · have other : i ≠ index := by
        rintro rfl
        refine here (List.mem_flatMap.2 ⟨_, Table.mem_of_lookup waits, ?_⟩)
        exact List.mem_filterMap.2 ⟨a, action, (target?_bare bare a).trans found⟩
      have rests : Rests d (turn c index (d.sheet.props index) d) i key :=
        rests_turn (fun _ _ same => absurd same other) d
      obtain same | refers := rests
      · exact .inr ⟨(List.mem_cons.1 mem).resolve_left other, same.trans waits⟩
      · exact .inl refers

end Turns

end Pagesmith.Lifting
