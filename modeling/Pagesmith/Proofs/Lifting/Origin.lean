import Pagesmith.Proofs.Lifting.Course
import Pagesmith.Proofs.Page.Below
import Pagesmith.Proofs.Table
import Pagesmith.Proofs.Text.Name
import Mathlib.Data.List.Forall2

/-!
Where the properties of a lifted page come from. Each property of a node is the one it was given, or
holds the given actions with those lifted that can be, or has been bound to a name that the page
knows. No property is taken away, and every new function sets a state of the page.
-/

namespace Pagesmith.Lifting

/-- The property is one that an action of the sheet binds when it is lifted. -/
def Bound (c : Catalogue) (s : Sheet) (id key : String) : Prop :=
  ∃ a t, Carries s a ∧ target? c s a = some t ∧ t.id = id ∧ t.Binds key

/-- The name of a state or a function of the page. -/
def Draft.Knows (d : Draft) (name : String) : Prop :=
  name ∈ d.states.map (·.1) ∨ name ∈ d.methods.map (·.1)

/-- Every state and function of the first page is there in the second one. -/
structure Grows (d d' : Draft) : Prop where
  states : d.states.map (·.1) ⊆ d'.states.map (·.1)
  methods : d.methods.map (·.1) ⊆ d'.methods.map (·.1)

/-- The functions that the actions become are there. -/
def Serves (c : Catalogue) (s : Sheet) (d : Draft) (as : List Action) : Prop :=
  ∀ a ∈ as, ∀ t, target? c s a = some t → t.handler ∈ d.methods.map (·.1)

/-- Where a property of a node comes from. -/
inductive Origin (c : Catalogue) (s : Sheet) (d : Draft) (l : NodeOf Ref) :
    String × PropOf Ref → Prop
  | given {e : String × PropOf Ref} (mem : e ∈ l.props) : Origin c s d l e
  | lifted {key : String} {p : PropOf Ref} (mem : (key, p) ∈ l.props) (asking : asks p = true)
    (served : Serves c s d p.actions) :
    Origin c s d l (key, ofActions (p.actions.map (lifted c s)))
  | bound {key name : String} (bound : Bound c s l.id key) (known : d.Knows name) :
    Origin c s d l (key, .reference name)

/-- What a node of a sheet has become. -/
structure Redrawn (c : Catalogue) (s : Sheet) (d : Draft) (l l' : NodeOf Ref) : Prop where
  bare : l'.bare = l.bare
  keys : l.props.map (·.1) ⊆ l'.props.map (·.1)
  origin : ∀ e ∈ l'.props, Origin c s d l e

/-- The function has an identifier for a name and sets a state of the page. -/
def IsSetter (d : Draft) (e : String × PageMethod) : Prop :=
  Text.IsName e.1 ∧ ∃ state value fromEvent,
    e.2 = .setter state value fromEvent ∧ state ∈ d.states.map (·.1)

/-- A page that has been reached on the way from the first one. -/
structure Follows (c : Catalogue) (d₀ d : Draft) : Prop where
  sheet : List.Forall₂ (Redrawn c d₀.sheet d) d₀.sheet d.sheet
  states : ∀ e ∈ d.states, e ∈ d₀.states ∨ e.2 = .bool false
  methods : ∀ e ∈ d.methods, e ∈ d₀.methods ∨ IsSetter d e
  grows : Grows d₀ d

variable {c : Catalogue} {s : Sheet} {d d' : Draft} {l l' : NodeOf Ref} {a : Action} {t : Target}

section Actions

theorem kind_of_target (h : target? c s a = some t) : a.kind = componentMethod := by
  rw [target?] at h
  split at h
  · next kind => exact eq_of_beq kind
  · cases h

theorem lifted_target (h : target? c s a = some t) : lifted c s a = call t.handler := by
  rw [lifted, h]

theorem lifted_other (h : target? c s a = none) : lifted c s a = a := by
  rw [lifted, h]

/-- An action that has been lifted, or could not be, has no target. -/
theorem target?_lifted (a : Action) : target? c s (lifted c s a) = none := by
  cases found : target? c s a with
  | none => rwa [lifted_other found]
  | some t =>
    rw [lifted_target found]
    rfl

theorem map_lifted_idle {as : List Action} (idle : ∀ a ∈ as, target? c s a = none) :
    as.map (lifted c s) = as := by
  conv_rhs => rw [← List.map_id as]
  exact List.map_congr_left fun a mem => lifted_other (idle a mem)

/-- Actions that have been lifted stay as they are. -/
theorem map_lifted_lifted (as : List Action) : (as.map (lifted c s)).map (lifted c s) = as.map (lifted c s) :=
  map_lifted_idle (List.forall_mem_map.2 fun a _ => target?_lifted a)

end Actions

section Grows

theorem Grows.refl (d : Draft) : Grows d d := ⟨List.Subset.refl _, List.Subset.refl _⟩

theorem Grows.trans {d'' : Draft} (h : Grows d d') (h' : Grows d' d'') : Grows d d'' :=
  ⟨List.Subset.trans h.states h'.states, List.Subset.trans h.methods h'.methods⟩

theorem grows_drive (t : Target) (d : Draft) : Grows d (t.drive d) :=
  ⟨Table.keys_subset_insertNew, Table.keys_subset_insert⟩

theorem grows_close (t : Target) (m : ComponentMethod) (event : String) (d : Draft) :
    Grows d (t.close m event d) :=
  ⟨List.Subset.refl _, Table.keys_subset_insertNew⟩

theorem Draft.Knows.mono {name : String} (h : d.Knows name) (grows : Grows d d') : d'.Knows name :=
  h.imp (fun mem => grows.states mem) fun mem => grows.methods mem

theorem IsSetter.mono {e : String × PageMethod} (h : IsSetter d e) (grows : Grows d d') :
    IsSetter d' e := by
  obtain ⟨name, state, value, fromEvent, setter, known⟩ := h
  exact ⟨name, state, value, fromEvent, setter, grows.states known⟩

theorem Serves.mono {as : List Action} (h : Serves c s d as) (grows : Grows d d') :
    Serves c s d' as :=
  fun a mem t found => grows.methods (h a mem t found)

theorem Origin.mono {e : String × PropOf Ref} (h : Origin c s d l e) (grows : Grows d d') :
    Origin c s d' l e := by
  cases h with
  | given mem => exact .given mem
  | lifted mem asking served => exact .lifted mem asking (served.mono grows)
  | bound bound known => exact .bound bound (known.mono grows)

theorem Redrawn.mono (h : Redrawn c s d l l') (grows : Grows d d') : Redrawn c s d' l l' :=
  ⟨h.bare, h.keys, fun e mem => (h.origin e mem).mono grows⟩

/-- After an action has been lifted, the page has the function it becomes. -/
theorem apply_grows (t : Target) (d : Draft) :
    Grows d (apply t d).1 ∧ t.handler ∈ (apply t d).1.methods.map (·.1) := by
  refine @Target.apply_induction (fun d' => Grows d d' ∧ t.handler ∈ d'.methods.map (·.1)) t d ?_ ?_
  · exact ⟨grows_drive t d, Table.mem_keys_insert_self⟩
  · rintro m - event - d' ⟨grows, known⟩
    have more := grows_close t m event d'
    exact ⟨grows.trans more, more.methods known⟩

theorem effect_grows (d : Draft) (a : Action) : Grows d (effect c d a) := by
  rw [effect]
  split
  · exact (apply_grows _ d).1
  · exact .refl d

theorem effects_grow (as : List Action) (d : Draft) : Grows d (as.foldl (effect c) d) := by
  induction as generalizing d with
  | nil => exact .refl d
  | cons a r ih => exact (effect_grows d a).trans (ih _)

theorem effects_serve (as : List Action) (d : Draft) :
    Serves c d.sheet (as.foldl (effect c) d) as := by
  induction as generalizing d with
  | nil => exact fun a mem => nomatch mem
  | cons a r ih =>
    rw [Serves, List.forall_mem_cons]
    constructor
    · intro t found
      have first : t.handler ∈ (effect c d a).methods.map (·.1) := by
        rw [effect, found]
        exact (apply_grows t d).2
      exact (effects_grow r _).methods first
    · intro b mem t found
      rw [← target?_bare (effect_bare d a)] at found
      exact ih (effect c d a) b mem t found

end Grows

section Steps

/-- A change of one node keeps a relation that the changed node is in. -/
theorem forall₂_modify {R : NodeOf Ref → NodeOf Ref → Prop} {s s' : Sheet}
    (h : List.Forall₂ R s s') {f : NodeOf Ref → NodeOf Ref} {index : Nat}
    (changed : ∀ l l', s[index]? = some l → s'[index]? = some l' → R l l' → R l (f l')) :
    List.Forall₂ R s (s'.modify index f) := by
  induction h generalizing index with
  | nil =>
    rw [List.modify_nil]
    exact .nil
  | @cons l l' r r' first rest ih =>
    cases index with
    | zero => exact .cons (changed l l' rfl rfl first) rest
    | succ index =>
      rw [List.modify_succ_cons]
      exact .cons first (ih fun m m' found found' => changed m m' found found')

theorem forall₂_at {R : NodeOf Ref → NodeOf Ref → Prop} {s s' : Sheet} (h : List.Forall₂ R s s')
    {index : Nat} (found : s'[index]? = some l') : ∃ l, s[index]? = some l ∧ R l l' := by
  obtain ⟨bound, rfl⟩ := List.getElem?_eq_some_iff.1 found
  have bound' : index < s.length := by rwa [h.length_eq]
  exact ⟨s[index], List.getElem?_eq_getElem bound', h.get bound' bound⟩

theorem Redrawn.setProp (h : Redrawn c s d l l') {key : String} {p : PropOf Ref}
    (origin : Origin c s d l (key, p)) :
    Redrawn c s d l { l' with props := Table.insert key p l'.props } where
  bare := h.bare
  keys := List.Subset.trans h.keys Table.keys_subset_insert
  origin e mem := by
    obtain rfl | mem := Table.eq_or_mem_of_mem_insert mem
    · exact origin
    · exact h.origin e mem

/-- The page with one property changed and more states and functions still follows the first one. -/
theorem Follows.setProp {d₀ : Draft} (h : Follows c d₀ d) {index : Nat} {key : String}
    {p : PropOf Ref} (grows : Grows d d') (sheet : d'.sheet = d.sheet.setProp index key p)
    (origin : ∀ l, d₀.sheet[index]? = some l → Origin c d₀.sheet d' l (key, p))
    (states : ∀ e ∈ d'.states, e ∈ d.states ∨ e.2 = .bool false)
    (methods : ∀ e ∈ d'.methods, e ∈ d.methods ∨ IsSetter d' e) : Follows c d₀ d' where
  sheet := by
    rw [sheet]
    refine forall₂_modify (h.sheet.imp fun l l' redrawn => redrawn.mono grows) ?_
    exact fun l l' found _ redrawn => redrawn.setProp (origin l found)
  states e mem := (states e mem).elim (h.states e) .inr
  methods e mem := by
    obtain mem | setter := methods e mem
    · exact (h.methods e mem).imp_right fun setter => setter.mono grows
    · exact .inr setter
  grows := h.grows.trans grows

theorem bare_follows {d₀ : Draft} (h : Follows c d₀ d) :
    d.sheet.map NodeOf.bare = d₀.sheet.map NodeOf.bare := by
  have same : List.Forall₂ (fun l l' => l'.bare = l.bare) d₀.sheet d.sheet :=
    h.sheet.imp fun l l' redrawn => redrawn.bare
  generalize d₀.sheet = s, d.sheet = s' at same
  induction same with
  | nil => rfl
  | cons first _ ih => rw [List.map_cons, List.map_cons, first, ih]

theorem isName_methodName (method id : String) : Text.IsName (Text.methodName method id) :=
  Text.isName_toIdentifier _

theorem isSetter_methodName {method id state : String} {value : Value} {fromEvent : Bool}
    (known : state ∈ d.states.map (·.1)) :
    IsSetter d (Text.methodName method id, .setter state value fromEvent) :=
  ⟨isName_methodName method id, state, value, fromEvent, rfl, known⟩

theorem closingMethod_setter (m : ComponentMethod) (event id : String) {state : String}
    (known : state ∈ d.states.map (·.1)) : IsSetter d (closingMethod m event id state) := by
  rw [closingMethod]
  split
  · exact isSetter_methodName known
  · exact isSetter_methodName known

/-- The target of an action is the node with its number. -/
theorem id_of_target (h : target? c s a = some t) : s[t.index]?.map (·.id) = some t.id := by
  rw [target?] at h
  split at h
  · next kind =>
    cases found : resolve c s a with
    | error cause =>
      rw [found] at h
      cases h
    | ok t' =>
      rw [found] at h
      obtain rfl := Option.some.inj h
      simp only [resolve] at found
      split at found
      · contradiction
      split at found
      · contradiction
      split at found
      · contradiction
      next node there =>
      split at found
      · contradiction
      split at found
      · contradiction
      split at found
      · contradiction
      obtain rfl := Except.ok.inj found
      rw [there]
      rfl
  · cases h

variable {d₀ : Draft}

theorem Follows.apply (h : Follows c d₀ d) (carried : Carries d₀.sheet a)
    (found : target? c d₀.sheet a = some t) : Follows c d₀ (apply t d).1 := by
  have bound : ∀ {d' : Draft} {key name : String} {l}, t.Binds key → d'.Knows name →
      d₀.sheet[t.index]? = some l → Origin c d₀.sheet d' l (key, .reference name) := by
    intro d' key name l binds known there
    have id := id_of_target found
    rw [there] at id
    exact .bound ⟨a, t, carried, found, (Option.some.inj id).symm, binds⟩ known
  -- The closing functions set the state that is driven, so that it is declared is part of the invariant.
  have both := @Target.apply_induction
    (fun d' => Follows c d₀ d' ∧ t.state ∈ d'.states.map (·.1)) t d ?_ ?_
  · exact both.1
  · have state : t.state ∈ (t.drive d).states.map (·.1) := Table.mem_keys_insertNew_self
    refine ⟨h.setProp (grows_drive t d) rfl (fun l there => bound .drive (.inl state) there)
      ?_ ?_, state⟩
    · intro e mem
      obtain rfl | mem := Table.mem_of_mem_insertNew mem
      · exact .inr rfl
      · exact .inl mem
    · intro e mem
      obtain rfl | mem := Table.eq_or_mem_of_mem_insert mem
      · exact .inr (isSetter_methodName state)
      · exact .inl mem
  · rintro m method event closing d' ⟨follows, state⟩
    have known : (closingMethod m event t.id t.state).1 ∈ (t.close m event d').methods.map (·.1) :=
      Table.mem_keys_insertNew_self
    refine ⟨follows.setProp (grows_close t m event d') rfl
      (fun l there => bound (.close method closing) (.inr known) there) (fun e mem => .inl mem) ?_,
      state⟩
    intro e mem
    obtain rfl | mem := Table.mem_of_mem_insertNew mem
    · exact .inr (closingMethod_setter m event t.id state)
    · exact .inl mem

/-- An action of a property that has a target was given with the page. -/
theorem Origin.carries {e : String × PropOf Ref} (h : Origin c s d l e) (there : l ∈ s)
    (mem : a ∈ e.2.actions) (found : target? c s a = some t) : Carries s a := by
  cases h with
  | given given => exact ⟨l, there, e, given, mem⟩
  | lifted given =>
    rw [actions_ofActions] at mem
    obtain ⟨b, -, rfl⟩ := List.mem_map.1 mem
    rw [target?_lifted] at found
    cases found
  | bound => cases mem

theorem Follows.effects (h : Follows c d₀ d) {as : List Action}
    (carried : ∀ a ∈ as, ∀ t, target? c d₀.sheet a = some t → Carries d₀.sheet a) :
    Follows c d₀ (as.foldl (effect c) d) := by
  induction as generalizing d with
  | nil => exact h
  | cons a r ih =>
    rw [List.forall_mem_cons] at carried
    refine ih ?_ carried.2
    rw [effect, target?_bare (bare_follows h)]
    cases found : target? c d₀.sheet a with
    | none => exact h
    | some t => exact h.apply (carried.1 t found) found

/-- A property whose actions are lifted once more is still the given one with its actions lifted. -/
theorem Origin.relift {key : String} {p : PropOf Ref} (h : Origin c s d l (key, p))
    (asking : asks p = true) (served : Serves c s d p.actions) :
    Origin c s d l (key, ofActions (p.actions.map (Lifting.lifted c s))) := by
  cases h with
  | given mem => exact .lifted mem asking served
  | @lifted _ p₀ mem asking₀ served₀ =>
    rw [actions_ofActions, map_lifted_lifted]
    exact .lifted mem asking₀ served₀
  | bound => cases asking

theorem Follows.turn (h : Follows c d₀ d) {index : Nat} {ps : List (String × PropOf Ref)}
    (given : ∀ l, d₀.sheet[index]? = some l → ∀ e ∈ ps, Origin c d₀.sheet d l e)
    (inside : index < d₀.sheet.length) : Follows c d₀ (turn c index ps d) := by
  induction ps generalizing d with
  | nil => exact h
  | cons e r ih =>
    obtain ⟨key, p⟩ := e
    have there := List.getElem?_eq_getElem inside
    have origin := given _ there
    rw [List.forall_mem_cons] at origin
    rw [Lifting.turn]
    split
    -- The actions of the property come into effect first; what they bind is known from then on, which
    -- the lifted actions that replace them need.
    · next asking =>
      have follows : Follows c d₀ (p.actions.foldl (effect c) d) := h.effects fun a mem t found =>
        origin.1.carries (List.getElem_mem inside) mem found
      have grows : Grows d (p.actions.foldl (effect c) d) := effects_grow p.actions d
      refine ih (follows.setProp ⟨List.Subset.refl _, List.Subset.refl _⟩ rfl ?_
        (fun e mem => .inl mem) fun e mem => .inl mem) ?_
      · intro l found
        obtain rfl := Option.some.inj (there.symm.trans found)
        rw [lifted_bare (bare_follows h)]
        have served : Serves c d₀.sheet (p.actions.foldl (effect c) d) p.actions := by
          intro a mem t found
          rw [← target?_bare (bare_follows h)] at found
          exact effects_serve p.actions d a mem t found
        exact ((origin.1.mono grows).relift asking served).mono ⟨List.Subset.refl _, List.Subset.refl _⟩
      · intro l found e mem
        exact ((given l found e (List.mem_cons_of_mem _ mem)).mono grows).mono
          ⟨List.Subset.refl _, List.Subset.refl _⟩
    · exact ih h fun l found e mem => given l found e (List.mem_cons_of_mem _ mem)

theorem Follows.turns (h : Follows c d₀ d) (indices : List Nat)
    (inside : ∀ index ∈ indices, index < d₀.sheet.length) : Follows c d₀ (turns c indices d) := by
  induction indices generalizing d with
  | nil => exact h
  | cons index r ih =>
    rw [List.forall_mem_cons] at inside
    refine ih (h.turn ?_ inside.1) inside.2
    intro l found e mem
    have bound : index < d.sheet.length := by rw [← h.sheet.length_eq]; exact inside.1
    have there := List.getElem?_eq_getElem bound
    obtain ⟨l₀, found₀, redrawn⟩ := forall₂_at h.sheet there
    obtain rfl := Option.some.inj (found₀.symm.trans found)
    rw [Sheet.props, there] at mem
    exact redrawn.origin e mem

theorem Follows.refl (c : Catalogue) (d : Draft) : Follows c d d where
  sheet := by
    refine List.forall₂_same.2 fun l _ => ⟨rfl, List.Subset.refl _, fun e mem => .given mem⟩
  states e mem := .inl mem
  methods e mem := .inl mem
  grows := .refl d

/-- A lifted page follows the given one. -/
theorem follows_finished (c : Catalogue) (p : Page) : Follows c (draft p) (finished c p) :=
  (Follows.refl c (draft p)).turns _ fun _ mem => List.mem_range.1 mem

end Steps

end Pagesmith.Lifting
