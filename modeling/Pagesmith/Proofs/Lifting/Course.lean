import Pagesmith.Lifting.Basic
import Pagesmith.Proofs.Job
import Pagesmith.Proofs.Page.Below
import Pagesmith.Proofs.Page.Uniform
import Pagesmith.Proofs.Table

/-!
The course of lifting. Lifting does not fail, and its outcome does not depend on the notices before
it: what it makes of a page is a function of the catalogue and the page. Only properties of nodes
change on the way, so an action means the same target from the first step to the last.
-/

namespace Pagesmith

/-- The node without its properties. -/
def NodeOf.bare {ν : Type} (layer : NodeOf ν) : NodeOf ν := { layer with props := [] }

/-- The node without its properties and children. -/
def NodeOf.face {ν : Type} (layer : NodeOf ν) : NodeOf Empty :=
  ⟨layer.id, layer.component, layer.dependency, [], layer.schemaName, none, layer.styles, layer.cssClass⟩

theorem NodeOf.bare_inj {ν : Type} {l l' : NodeOf ν} (h : l'.bare = l.bare) :
    l'.id = l.id ∧ l'.schemaName = l.schemaName ∧ l'.children = l.children := by
  have id := congrArg (fun b : NodeOf ν => b.id) h
  have schemaName := congrArg (fun b : NodeOf ν => b.schemaName) h
  have children := congrArg (fun b : NodeOf ν => b.children) h
  exact ⟨id, schemaName, children⟩

namespace Sheet

theorem length_bare {s s' : Sheet} (h : s.map NodeOf.bare = s'.map NodeOf.bare) :
    s.length = s'.length := by
  simpa using congrArg List.length h

theorem bare_setProp (index : Nat) (key : String) (p : PropOf Ref) (s : Sheet) :
    (s.setProp index key p).map NodeOf.bare = s.map NodeOf.bare := by
  rw [setProp]
  induction s generalizing index with
  | nil => rw [List.modify_nil]
  | cons l r ih =>
    cases index with
    | zero => rfl
    | succ index =>
      rw [List.modify_succ_cons, List.map_cons, List.map_cons, ih]

theorem mem_setProp {s : Sheet} {index : Nat} {key : String} {p : PropOf Ref} {l : NodeOf Ref}
    (h : l ∈ s.setProp index key p) :
    l ∈ s ∨ ∃ l' ∈ s, l = { l' with props := Table.insert key p l'.props } := by
  rw [setProp] at h
  induction s generalizing index with
  | nil =>
    rw [List.modify_nil] at h
    cases h
  | cons l' r ih =>
    cases index with
    | zero =>
      obtain rfl | mem := List.mem_cons.1 h
      · exact .inr ⟨l', List.mem_cons_self, rfl⟩
      · exact .inl (List.mem_cons_of_mem _ mem)
    | succ index =>
      rw [List.modify_succ_cons] at h
      obtain rfl | mem := List.mem_cons.1 h
      · exact .inl List.mem_cons_self
      · refine (ih mem).imp (List.mem_cons_of_mem _) ?_
        rintro ⟨m, mem, same⟩
        exact ⟨m, List.mem_cons_of_mem _ mem, same⟩

theorem lastIndex?_bare (id : String) (s : Sheet) :
    lastIndex? id (s.map NodeOf.bare) = lastIndex? id s := by
  rw [lastIndex?, lastIndex?, List.zipIdx_map, List.filter_map, List.getLast?_map, Option.map_map]
  rfl

end Sheet

namespace Lifting

/-- An action of this value asks a component to run a method. -/
def asks {ν : Type} (p : PropOf ν) : Bool := p.actions.any (·.kind == componentMethod)

/-- The action that calls a function of the page. -/
def call (handler : String) : Action :=
  ⟨callMethod, .dict [("methodName", .str (methodMark ++ handler))]⟩

namespace Target

/-- The state that drives the property. -/
def state (t : Target) : String := Text.stateName t.binding.prop t.id

/-- The function that stands for the method. -/
def handler (t : Target) : String := Text.methodName t.method.name t.id

/-- The page with the property bound to its state. -/
def drive (t : Target) (d : Draft) : Draft where
  sheet := d.sheet.setProp t.index t.binding.prop (.reference t.state)
  states := Table.insertNew t.state (.bool false) d.states
  methods := Table.insert t.handler (.setter t.state t.binding.value false) d.methods

/-- The page with a closing event bound to its function. -/
def close (t : Target) (m : ComponentMethod) (event : String) (d : Draft) : Draft where
  sheet := d.sheet.setProp t.index event (.reference (closingMethod m event t.id t.state).1)
  states := d.states
  methods := Table.insertNew (closingMethod m event t.id t.state).1
    (closingMethod m event t.id t.state).2 d.methods

/-- The key is the driven property or the event of a closing method. -/
inductive Binds (t : Target) : String → Prop
  | drive : Binds t t.binding.prop
  | close {m : ComponentMethod} {event : String} (method : m ∈ t.material.methods)
    (closing : closingEvent? t.binding.prop m = some event) : Binds t event

/-- What driving the property sets up and closing events keep holds after an action has been
lifted. -/
theorem apply_induction {I : Draft → Prop} (t : Target) {d : Draft} (drive : I (t.drive d))
    (close : ∀ m ∈ t.material.methods, ∀ event, closingEvent? t.binding.prop m = some event →
      ∀ d, I d → I (t.close m event d)) : I (apply t d).1 := by
  change I (bindClosingEvents t t.state (t.drive d))
  rw [bindClosingEvents]
  generalize t.drive d = d at drive
  generalize t.material.methods = methods at close
  induction methods generalizing d with
  | nil => exact drive
  | cons m r ih =>
    rw [List.forall_mem_cons] at close
    rw [List.foldl_cons]
    refine ih _ ?_ close.2
    cases found : closingEvent? t.binding.prop m with
    | none => exact drive
    | some event => exact close.1 event found d drive

end Target

/-- The target of an action that can be lifted. -/
def target? (c : Catalogue) (s : Sheet) (a : Action) : Option Target :=
  if a.kind == componentMethod then (resolve c s a).toOption else none

/-- What becomes of an action. -/
def lifted (c : Catalogue) (s : Sheet) (a : Action) : Action :=
  match target? c s a with
  | some t => call t.handler
  | none => a

/-- What lifting an action does to the page. -/
def effect (c : Catalogue) (d : Draft) (a : Action) : Draft :=
  match target? c d.sheet a with
  | some t => (apply t d).1
  | none => d

/-- The page after the turn of a node with these properties. -/
def turn (c : Catalogue) (index : Nat) : List (String × PropOf Ref) → Draft → Draft
  | [], d => d
  | (key, p) :: r, d =>
    if asks p then
      let after := p.actions.foldl (effect c) d
      turn c index r { after with
        sheet := after.sheet.setProp index key (ofActions (p.actions.map (lifted c d.sheet))) }
    else turn c index r d

/-- The page after the turns of these nodes. -/
def turns (c : Catalogue) : List Nat → Draft → Draft
  | [], d => d
  | index :: r, d => turns c r (turn c index (d.sheet.props index) d)

/-- A page as lifting finds it. -/
def draft (p : Page) : Draft := ⟨Sheet.ofNode 0 p.root, p.states, p.methods⟩

/-- A page as lifting leaves it. -/
def finished (c : Catalogue) (p : Page) : Draft :=
  turns c (List.range (Sheet.ofNode 0 p.root).length) (draft p)

/-- A page with its component methods lifted. -/
def outcome (c : Catalogue) (p : Page) : Page :=
  { p with
    root := ((Sheet.grow 0 (finished c p).sheet).head?).getD p.root
    states := (finished c p).states
    methods := (finished c p).methods }

variable {c : Catalogue}

theorem resolve_bare (c : Catalogue) (s : Sheet) (a : Action) :
    resolve c (s.map NodeOf.bare) a = resolve c s a := by
  rw [resolve, resolve, Sheet.lastIndex?_bare]
  split
  · rfl
  cases s.lastIndex? (a.setting "componentId").text with
  | none => rfl
  | some index =>
    simp only [List.getElem?_map]
    cases s[index]? <;> rfl

theorem target?_bare {s s' : Sheet} (h : s.map NodeOf.bare = s'.map NodeOf.bare) (a : Action) :
    target? c s a = target? c s' a := by
  rw [target?, target?, ← resolve_bare c s, h, resolve_bare]

theorem lifted_bare {s s' : Sheet} (h : s.map NodeOf.bare = s'.map NodeOf.bare) :
    lifted c s = lifted c s' := by
  funext a
  rw [lifted, lifted, target?_bare h]

theorem apply_bare (t : Target) (d : Draft) :
    (apply t d).1.sheet.map NodeOf.bare = d.sheet.map NodeOf.bare := by
  refine @Target.apply_induction (fun d' => d'.sheet.map NodeOf.bare = _) t d ?_ ?_
  · exact Sheet.bare_setProp ..
  · intro m _ event _ d same
    rw [← same]
    exact Sheet.bare_setProp ..

theorem effect_bare (d : Draft) (a : Action) :
    (effect c d a).sheet.map NodeOf.bare = d.sheet.map NodeOf.bare := by
  rw [effect]
  split
  · exact apply_bare _ d
  · rfl

theorem effects_bare (as : List Action) (d : Draft) :
    (as.foldl (effect c) d).sheet.map NodeOf.bare = d.sheet.map NodeOf.bare := by
  induction as generalizing d with
  | nil => rfl
  | cons a r ih => rw [List.foldl_cons, ih, effect_bare]

theorem turn_bare (index : Nat) (ps : List (String × PropOf Ref)) (d : Draft) :
    (turn c index ps d).sheet.map NodeOf.bare = d.sheet.map NodeOf.bare := by
  induction ps generalizing d with
  | nil => rfl
  | cons e r ih =>
    obtain ⟨key, p⟩ := e
    rw [turn]
    split
    · rw [ih, Sheet.bare_setProp, effects_bare]
    · exact ih d

theorem turns_bare (indices : List Nat) (d : Draft) :
    (turns c indices d).sheet.map NodeOf.bare = d.sheet.map NodeOf.bare := by
  induction indices generalizing d with
  | nil => rfl
  | cons index r ih => rw [turns, ih, turn_bare]

theorem actions_ofActions (as : List Action) : (ofActions as).actions = as := by
  match as with
  | [] => rfl
  | [a] => rfl
  | a :: b :: r => exact PropOf.actions_many (a :: b :: r)

theorem get_bind {α : Type} (next : Draft → Lift α) (d : Draft) :
    (MonadState.get >>= next) d = next d d := rfl

theorem checkTexts_bare {s s' : Sheet} (h : s.map NodeOf.bare = s'.map NodeOf.bare) :
    checkTexts s = checkTexts s' := by
  have same (id : String) : s.lastIndex? id = s'.lastIndex? id := by
    rw [← Sheet.lastIndex?_bare, h, Sheet.lastIndex?_bare]
  funext a
  simp only [checkTexts, same]

/-- The action stands in a property of a node of the sheet. -/
def Carries (s : Sheet) (a : Action) : Prop := ∃ l ∈ s, ∃ e ∈ l.props, a ∈ e.2.actions

/-- An action without texts has a number too long for one. -/
theorem long_of_checkTexts {s : Sheet} {a : Action} {f : Fault} (texts : checkTexts s a = .error f) :
    a.config.holdsLongNumber = true := by
  have written {key : String} {e : Fault} (failed : (a.setting key).text? = .error e) :
      a.config.holdsLongNumber = true := by
    rw [Value.text?] at failed
    split at failed
    · next long => exact Action.holdsLongNumber_setting long
    · cases failed
  rw [checkTexts] at texts
  split at texts
  · cases texts
  cases id : (a.setting "componentId").text? with
  | error e => exact written id
  | ok text =>
    simp only [id, bind, Except.bind] at texts
    split at texts
    · cases method : (a.setting "method").text? with
      | error e => exact written method
      | ok text =>
        rw [method] at texts
        cases texts
    · cases texts

/-- The faults that lifting a page can end in: those of its actions that ask for a method with settings that have no
text. -/
def faults (p : Page) : Set Fault :=
  {f | ∃ a, Carries (Sheet.ofNode 0 p.root) a ∧ a.kind = componentMethod ∧
    checkTexts (Sheet.ofNode 0 p.root) a = .error f}

/-- If the action asks for a method, its settings have texts, or the fault is excused. -/
def HasTexts (s : Sheet) (excused : Set Fault) (a : Action) : Prop :=
  a.kind = componentMethod → Job.Meets excused (fun _ => True) (checkTexts s a)

section Faults

variable {excused : Set Fault} {s : Sheet} {d : Draft}

theorem HasTexts.lifted {a : Action} (h : HasTexts s excused a) (s' : Sheet) : HasTexts s excused (lifted c s' a) := by
  rw [Lifting.lifted]
  split
  · exact fun kind => absurd (show callMethod = componentMethod from kind) (by decide)
  · exact h

theorem carries_setProp {index : Nat} {key : String} {p : PropOf Ref} {a : Action}
    (h : Carries (d.sheet.setProp index key p) a) : Carries d.sheet a ∨ a ∈ p.actions := by
  obtain ⟨l, there, e, given, mem⟩ := h
  obtain here | ⟨l', mem', rfl⟩ := Sheet.mem_setProp there
  · exact .inl ⟨l, here, e, given, mem⟩
  · obtain rfl | given := Table.eq_or_mem_of_mem_insert given
    · exact .inr mem
    · exact .inl ⟨l', mem', e, given, mem⟩

theorem carries_effect {a b : Action} (h : Carries (effect c d a).sheet b) : Carries d.sheet b := by
  revert h
  rw [effect]
  split
  · next t _ =>
    have bound {d' : Draft} (before : Carries d'.sheet b → Carries d.sheet b) {index : Nat} {key name : String}
        (h : Carries (d'.sheet.setProp index key (.reference name)) b) : Carries d.sheet b := by
      obtain h | mem := carries_setProp h
      · exact before h
      · cases mem
    exact @Target.apply_induction (fun d' => Carries d'.sheet b → Carries d.sheet b) t d (bound id)
      fun m _ event _ d' before => bound before
  · exact id

theorem carries_effects (as : List Action) {b : Action} (h : Carries (as.foldl (effect c) d).sheet b) :
    Carries d.sheet b := by
  induction as generalizing d with
  | nil => exact h
  | cons a r ih => exact carries_effect (ih h)

theorem carries_props {index : Nat} {e : String × PropOf Ref} {a : Action} (mem : e ∈ d.sheet.props index)
    (there : a ∈ e.2.actions) : Carries d.sheet a := by
  rw [Sheet.props] at mem
  cases found : d.sheet[index]? with
  | none =>
    rw [found] at mem
    cases mem
  | some l =>
    rw [found] at mem
    exact ⟨l, List.mem_of_getElem? found, e, mem, there⟩

/-- The turn of a node brings in calls only. -/
theorem hasTexts_turn {index : Nat} {ps : List (String × PropOf Ref)}
    (given : ∀ e ∈ ps, ∀ a ∈ e.2.actions, HasTexts s excused a) (all : ∀ a, Carries d.sheet a → HasTexts s excused a) :
    ∀ a, Carries (turn c index ps d).sheet a → HasTexts s excused a := by
  induction ps generalizing d with
  | nil => exact all
  | cons e r ih =>
    obtain ⟨key, p⟩ := e
    obtain ⟨here, others⟩ := List.forall_mem_cons.1 given
    rw [turn]
    split
    · refine ih others fun a carried => ?_
      obtain before | mem := carries_setProp carried
      · exact all a (carries_effects p.actions before)
      · rw [actions_ofActions] at mem
        obtain ⟨b, there, rfl⟩ := List.mem_map.1 mem
        exact (here b there).lifted d.sheet
    · exact ih others all

/-- The page has the nodes of the sheet, and those of its actions that ask for a method have settings with texts. -/
structure Readable (s : Sheet) (excused : Set Fault) (d : Draft) : Prop where
  bare : d.sheet.map NodeOf.bare = s.map NodeOf.bare
  texts : ∀ a, Carries d.sheet a → HasTexts s excused a

theorem action_completes {a : Action} (bare : d.sheet.map NodeOf.bare = s.map NodeOf.bare)
    (texts : HasTexts s excused a) :
    (action c a d).Completes excused (· = (lifted c d.sheet a, effect c d a)) := by
  rw [action, lifted, effect, target?]
  cases asking : a.kind == componentMethod with
  | false =>
    rw [bne, asking]
    exact .pure rfl
  | true =>
    rw [bne, asking, if_neg (by decide), get_bind, checkTexts_bare bare]
    refine .bind (P := (·.2 = d)) (.bind (.ofExcept (texts (eq_of_beq asking))) fun _ _ => .pure rfl) ?_
    rintro ⟨-, d'⟩ (rfl : d' = d)
    cases resolve c d'.sheet a with
    | error cause => exact fun log => rfl
    | ok t => exact fun log => rfl

theorem actions_complete {as : List Action} (bare : d.sheet.map NodeOf.bare = s.map NodeOf.bare)
    (texts : ∀ a ∈ as, HasTexts s excused a) :
    ((as.mapM (action c)) d).Completes excused (· = (as.map (lifted c d.sheet), as.foldl (effect c) d)) := by
  induction as generalizing d with
  | nil => exact .pure rfl
  | cons a r ih =>
    obtain ⟨here, others⟩ := List.forall_mem_cons.1 texts
    rw [List.mapM_cons]
    refine .bind (action_completes bare here) ?_
    rintro _ rfl
    refine .bind (ih ((effect_bare d a).trans bare) others) ?_
    rintro _ rfl
    rw [← lifted_bare (effect_bare d a)]
    exact .pure rfl

theorem props_complete {index : Nat} {ps : List (String × PropOf Ref)}
    (bare : d.sheet.map NodeOf.bare = s.map NodeOf.bare)
    (texts : ∀ e ∈ ps, ∀ a ∈ e.2.actions, HasTexts s excused a) :
    (props c index ps d).Completes excused (· = ((), turn c index ps d)) := by
  induction ps generalizing d with
  | nil => exact .pure rfl
  | cons e r ih =>
    obtain ⟨key, p⟩ := e
    obtain ⟨here, others⟩ := List.forall_mem_cons.1 texts
    rw [props, turn, asks]
    split
    · refine Job.Completes.bind (actions_complete bare here) ?_
      rintro _ rfl
      exact ih ((Sheet.bare_setProp ..).trans ((effects_bare p.actions d).trans bare)) others
    · exact ih bare others

theorem Readable.turn (h : Readable s excused d) (index : Nat) :
    Readable s excused (Lifting.turn c index (d.sheet.props index) d) where
  bare := (turn_bare index _ d).trans h.bare
  texts := hasTexts_turn (fun _ mem a there => h.texts a (carries_props mem there)) h.texts

theorem nodes_complete (h : Readable s excused d) (indices : List Nat) :
    (nodes c indices d).Completes excused (· = ((), turns c indices d)) := by
  induction indices generalizing d with
  | nil => exact .pure rfl
  | cons index r ih =>
    refine .bind (props_complete h.bare fun e mem a there => h.texts a (carries_props mem there)) ?_
    rintro _ rfl
    exact ih (h.turn index)

end Faults

/-- Lifting a page has one outcome, and fails over none but its faults. -/
theorem page_ends (c : Catalogue) (p : Page) : (page c p).Completes (faults p) (· = outcome c p) := by
  have readable : Readable (draft p).sheet (faults p) (draft p) := by
    refine ⟨rfl, fun a carried kind => ?_⟩
    cases texts : checkTexts (draft p).sheet a with
    | ok _ => trivial
    | error f => exact ⟨a, carried, kind, texts⟩
  rw [page, outcome]
  refine .bind (nodes_complete readable _) ?_
  rintro _ rfl
  dsimp only [finished]
  generalize Sheet.grow 0 _ = grown
  cases grown <;> exact .pure rfl

theorem pages_end (c : Catalogue) {excused : Set Fault} {ps : List Page} (sub : ∀ p ∈ ps, faults p ⊆ excused) :
    (pages c ps).Completes excused (· = ps.map (outcome c)) := by
  induction ps with
  | nil => exact .pure rfl
  | cons p r ih =>
    obtain ⟨own, others⟩ := List.forall_mem_cons.1 sub
    refine .bind (fun log => (page_ends c p log).mono (fun _ same => same) own) ?_
    rintro _ rfl
    refine .bind (ih others) ?_
    rintro _ rfl
    exact .pure rfl

/-- Lifting a project does not fail. -/
theorem project_ends (c : Catalogue) (p : Project) :
    (project c p).Completes {f | ∃ q ∈ p.pages, f ∈ faults q} (· = { p with pages := p.pages.map (outcome c) }) := by
  refine .bind (.note _) fun _ _ => .bind (pages_end c fun q mem f fault => ⟨q, mem, fault⟩) ?_
  rintro _ rfl
  exact .pure rfl

end Lifting

end Pagesmith
