import Mathlib
import Pagesmith.Proofs.Lifting.Target
import Pagesmith.Proofs.Lifting.Wired
import Pagesmith.Proofs.Reading.Plain

/-!
Calls do what the component method says. With the default catalogue a target that is lifted is wired in
the end, whatever else is lifted before or after it; and an action that can be resolved is lifted,
unless the property that it stands in is bound before its turn.
-/

namespace Pagesmith.Lifting

open Text

/-- The action has a target, and this is lifted: for this action, or for another one. -/
def IsServed (c : Catalogue) (p : Page) (a : Action) : Prop :=
  ∃ t ∈ liftedTargets c p, target? c (draft p).sheet a = some t

/-- The value is a reference to a state or a function of the finished page, and a target with the
identifier of the node binds the property. -/
def IsBound (c : Catalogue) (p q : Page) (n : Node) (key : String) (v : PropOf Node) : Prop :=
  (∃ name, v = .reference name ∧ q.Knows name) ∧
    ∃ t ∈ liftedTargets c p, t.id = n.layer.id ∧ t.Binds key

/-- What the last node with an identifier has become. -/
def after? (c : Catalogue) (p : Page) (id : String) : Option Node :=
  ((nodesAfter c p).filter fun n => n.layer.id == id).getLast?

variable {c : Catalogue} {p : Page} {root n n' : Node} {t t' : Target} {a b : Action}

section Default

/-- The value is this truth value. -/
def isBool (b : Bool) : Value → Bool
  | .bool v => v == b
  | _ => false

/-- What a method of a component assigns, by the beginning of its function's name; and no event is the
property that methods drive. -/
theorem methods_default : ∀ e ∈ Catalogue.default.materials, ∀ m ∈ e.2.methods,
    (∀ b ∈ m.binding, b.value = .bool (functionHead m.name == "handleOpen_")) ∧
      ∀ event ∈ m.event, event ≠ "open" := by
  have all : (Catalogue.default.materials.all fun e => e.2.methods.all fun m =>
      (m.binding.all fun b => isBool (functionHead m.name == "handleOpen_") b.value) &&
        m.event.all (· != "open")) = true := by
    decide +kernel
  intro e mem m method
  have here := List.all_eq_true.1 (List.all_eq_true.1 all e mem) m method
  obtain ⟨value, event⟩ := Bool.and_eq_true_iff.1 here
  constructor
  · intro b binding
    rw [Option.mem_def.1 binding] at value
    obtain ⟨prop, v⟩ := b
    cases v with
    | bool v => exact congrArg Value.bool (eq_of_beq value)
    | _ => cases value
  · intro e given
    rw [Option.mem_def.1 given] at event
    simpa using event

/-- With the default catalogue all targets of a page agree. -/
theorem agrees_default (found : target? .default (Sheet.ofNode 0 root) a = some t)
    (found' : target? .default (Sheet.ofNode 0 root) b = some t') : Agrees t t' := by
  obtain ⟨n, resolves, -⟩ := target?_resolves found
  obtain ⟨n', resolves', -⟩ := target?_resolves found'
  have known := Table.mem_of_lookup resolves.known
  have known' := Table.mem_of_lookup resolves'.known
  have method := List.mem_of_find?_eq_some resolves.found
  have method' := List.mem_of_find?_eq_some resolves'.found
  have drives := drives_default _ known _ method _ resolves.binding
  have drives' := drives_default _ known' _ method' _ resolves'.binding
  have states (alike : ReadsAlike t.id t'.id) : t.state = t'.state := by
    rw [Target.state, Target.state, drives, drives']
    exact openState_inj.2 alike
  refine ⟨fun same => ?_, fun index _ => ?_, fun m mem event closing => ?_⟩
  · obtain ⟨head, alike⟩ := function_inj (functionHead_default _ known _ method).1
      (functionHead_default _ known' _ method').1 same
    have value := (methods_default _ known _ method).1 _ resolves.binding
    have value' := (methods_default _ known' _ method').1 _ resolves'.binding
    rw [states alike, value, value', head]
  · have own := id_of_target found
    have own' := id_of_target found'
    rw [index, own'] at own
    have id : t'.id = t.id := Option.some.inj own
    rw [Target.state, Target.state, drives, drives', id]
  · rw [drives]
    exact (methods_default _ known' _ mem).2 event (eventOf_closing closing)

theorem index_lt_of_target {s : Sheet} (h : target? c s a = some t) : t.index < s.length := by
  have own := id_of_target h
  cases there : s[t.index]? with
  | none =>
    rw [there] at own
    cases own
  | some l => exact (List.getElem?_eq_some_iff.1 there).1

/-- On a page as it is read a target that is lifted is wired in the end. -/
theorem finished_wired (states : p.states = []) (keys : p.root.DistinctProps)
    (mem : t ∈ liftedTargets .default p)
    (quiet : ∀ v, ((draft p).sheet.props t.index).lookup t.binding.prop = some v → v.actions = []) :
    Wired t (finished .default p) := by
  obtain ⟨a, found⟩ := turnsTargets_target _ _ t mem
  have ready : Ready t (draft p) := by
    refine ⟨fun e there => ?_, index_lt_of_target found, quiet⟩
    change e ∈ p.states at there
    rw [states] at there
    cases there
  exact turns_wire (Sheet.distinctKeys_ofNode keys) rfl ready
    (fun b t' found' => agrees_default found found') (.inr mem) found

end Default

theorem ofActions_ne_reference {as : List Action} (some : as ≠ []) (name : String) :
    ofActions as ≠ .reference name := by
  intro same
  have none := actions_ofActions as
  rw [same] at none
  exact some none.symm

/-- In the place of an action that can be resolved there is a call in the end, and its target is lifted;
unless a target that is lifted has bound the property. -/
theorem finished_place (keys : p.root.DistinctProps) {i k : Nat} {key : String} {v : PropOf Ref}
    (given : (key, v) ∈ (draft p).sheet.props i) (action : v.actions[k]? = some a)
    (found : target? c (draft p).sheet a = some t) :
    ∃ v', ((finished c p).sheet.props i).lookup key = some v' ∧
      (v'.actions[k]? = some (call t.handler) ∧ t ∈ liftedTargets c p ∨
        (∃ name, v' = .reference name ∧ (finished c p).Knows name) ∧
          ∃ t' ∈ liftedTargets c p, t'.index = i ∧ t'.Binds key) := by
  have distinct : (draft p).sheet.DistinctKeys := Sheet.distinctKeys_ofNode keys
  have mem := List.mem_of_getElem? action
  have before := Table.lookup_of_mem (distinct.props i) given
  obtain ⟨l, there, own⟩ := Sheet.mem_props_iff.1 given
  have bound := (List.getElem?_eq_some_iff.1 there).1
  have served : t ∈ liftedTargets c p ∨ Refers (finished c p) i key :=
    turns_lift distinct rfl found mem (.inr ⟨List.mem_range.2 bound, before⟩)
  have traced := traced_finished c keys i key
  obtain ⟨l', there', redrawn⟩ := forall₂_at (follows_finished c p).sheet.flip there
  have row : (finished c p).sheet.props i = l'.props := by
    rw [Sheet.props, there']
    rfl
  rw [row] at traced ⊢
  cases after : l'.props.lookup key with
  | none => exact absurd (redrawn.keys (List.mem_map_of_mem own)) (Table.lookup_eq_none.1 after)
  | some v' =>
    refine ⟨v', rfl, ?_⟩
    have entry := Table.mem_of_lookup after
    rw [before, after] at traced
    cases redrawn.origin _ entry with
    | given mem' =>
      obtain rfl := Table.eq_of_mem (distinct l (List.mem_of_getElem? there)) mem' own
      have idle := (finished_settled (c := c) keys i (key, v') (by rwa [row])).targets a mem
      rw [found] at idle
      cases idle
    | @lifted _ v mem' asking =>
      obtain rfl := Table.eq_of_mem (distinct l (List.mem_of_getElem? there)) mem' own
      refine .inl ⟨?_, served.resolve_right ?_⟩
      · rw [actions_ofActions, List.getElem?_map, action, Option.map_some, lifted_target found]
      · rintro ⟨name, refers⟩
        rw [row, after] at refers
        refine ofActions_ne_reference ?_ name (Option.some.inj refers)
        exact mt List.map_eq_nil_iff.1 (actions_of_asks asking)
    | @bound _ name _ known =>
      refine .inr ⟨⟨name, rfl, known⟩, traced.resolve_right fun rel => ?_⟩
      generalize same : PropOf.reference name = v' at rel
      cases rel with
      | some stage =>
        cases stage with
        | same =>
          subst same
          cases mem
        | lifted asking =>
          exact ofActions_ne_reference (mt List.map_eq_nil_iff.1 (actions_of_asks asking)) name same.symm

theorem lastIndex?_of_target {s : Sheet} (h : target? c s a = some t) :
    s.lastIndex? (a.setting "componentId").text = some t.index := by
  rw [target?] at h
  split at h
  · cases found : resolve c s a with
    | error cause =>
      rw [found] at h
      cases h
    | ok t' =>
      rw [found] at h
      obtain rfl := Option.some.inj h
      simp only [resolve] at found
      split at found
      · contradiction
      split at found
      · contradiction
      next index there =>
      split at found
      · contradiction
      split at found
      · contradiction
      split at found
      · contradiction
      split at found
      · contradiction
      obtain rfl := Except.ok.inj found
      exact there
  · cases h

theorem ids_before (p : Page) : p.root.walk.map (·.layer.id) = (draft p).sheet.map (·.id) := by
  rw [← grow_draft]
  exact Sheet.ids_grow 0 _

theorem ids_after (c : Catalogue) (p : Page) :
    (nodesAfter c p).map (·.layer.id) = (draft p).sheet.map (·.id) := by
  have bare : (finished c p).sheet.map NodeOf.bare = (draft p).sheet.map NodeOf.bare := turns_bare _ _
  have ids := congrArg (List.map fun l : NodeOf Ref => l.id) bare
  rw [List.map_map, List.map_map] at ids
  exact (Sheet.ids_grow 0 _).trans ids

/-- The target of an action is the last node with its identifier, before lifting and after. -/
theorem became_target (found : target? c (draft p).sheet a = some t)
    (node : p.root.find? (a.setting "componentId").text = some n) :
    ∃ n', (nodesAfter c p)[t.index]? = some n' ∧ p.root.walk[t.index]? = some n ∧
      after? c p n.layer.id = some n' := by
  have id := (Node.find?_mem node).2
  have index := lastIndex?_of_target found
  have first := Sheet.lastIndex?_row (ids_before p) (a.setting "componentId").text
  have second := Sheet.lastIndex?_row (ids_after c p) (a.setting "componentId").text
  rw [index, Option.bind_some] at first second
  have here : p.root.walk[t.index]? = some n := first.trans node
  have bound := (List.getElem?_eq_some_iff.1 here).1
  rw [← length_nodesAfter c p] at bound
  refine ⟨_, List.getElem?_eq_getElem bound, here, ?_⟩
  rw [after?, id, ← second, List.getElem?_eq_getElem bound]

/-- What a node of a row has for a key, from the sheet that the row has grown from. -/
theorem lookup_grow {s : Sheet} {index i : Nat} (h : (Sheet.grow index s)[i]? = some n) :
    ∃ ρ, ∀ key, n.layer.props.lookup key = ((s.props i).lookup key).map (PropOf.map ρ) := by
  induction s generalizing index i with
  | nil => cases h
  | cons l r ih =>
    cases i with
    | succ i => exact ih h
    | zero =>
      obtain rfl := Option.some.inj h
      exact ⟨_, fun key => Table.lookup_mapValues (PropOf.map _) key l.props⟩

theorem lookup_before {i : Nat} (here : p.root.walk[i]? = some n) :
    ∃ ρ, ∀ key, n.layer.props.lookup key = (((draft p).sheet.props i).lookup key).map (PropOf.map ρ) := by
  rw [← grow_draft] at here
  exact lookup_grow here

/-- An action that can be resolved becomes the call of its target's function, or its property is bound. -/
theorem call_or_bound (keys : p.root.DistinctProps) (found : target? c (draft p).sheet a = some t)
    (became : Became c p n n') {key : String} {v : PropOf Node} {k : Nat}
    (given : (key, v) ∈ n.layer.props) (action : v.actions[k]? = some a) :
    ∃ v', n'.layer.props.lookup key = some v' ∧
      (v'.actions[k]? = some (call t.handler) ∧ IsServed c p a ∨
        IsBound c p (outcome c p) n key v') := by
  have distinct := keys n became.mem
  obtain ⟨i, here, here'⟩ := became
  obtain ⟨ρ, before⟩ := lookup_before here
  obtain ⟨ρ', after⟩ := lookup_grow here'
  have there := Table.lookup_of_mem distinct given
  rw [before] at there
  obtain ⟨w, found₀, rfl⟩ := Option.map_eq_some_iff.1 there
  rw [PropOf.actions_map] at action
  obtain ⟨w', final, served⟩ := finished_place keys (Table.mem_of_lookup found₀) action found
  refine ⟨w'.map ρ', by rw [after, final, Option.map_some], ?_⟩
  obtain ⟨called, lifted⟩ | ⟨⟨name, rfl, known⟩, t', lifted, rfl, binds⟩ := served
  · rw [PropOf.actions_map]
    exact .inl ⟨called, t, lifted, found⟩
  · refine .inr ⟨⟨name, rfl, known⟩, t', lifted, ?_, binds⟩
    obtain ⟨b, found'⟩ := turnsTargets_target _ _ t' lifted
    have own := id_of_target found'
    rw [← List.getElem?_map, ← ids_before, List.getElem?_map, here] at own
    exact (Option.some.inj own).symm

/-- The function sets the state to the value of the binding, the property of the node is bound to the
state, and the state is false at first. -/
structure Operates (q : Page) (handler state : String) (n : Node) (b : StateBinding) : Prop where
  method : q.methods.lookup handler = some (.setter state b.value false)
  prop : n.layer.props.lookup b.prop = some (.reference state)
  initial : q.states.lookup state = some (.bool false)

theorem served_operates (states : p.states = []) (keys : p.root.DistinctProps)
    (found : target? .default (draft p).sheet a = some t)
    (node : p.root.find? (a.setting "componentId").text = some n)
    (quiet : ∀ v, (t.binding.prop, v) ∈ n.layer.props → v.actions = [])
    (served : IsServed .default p a) (after : (nodesAfter .default p)[t.index]? = some n') :
    Operates (outcome .default p) t.handler t.state n' t.binding := by
  obtain ⟨t', lifted, found'⟩ := served
  obtain rfl := Option.some.inj (found.symm.trans found')
  obtain ⟨-, -, here, -⟩ := became_target found node
  obtain ⟨ρ, before⟩ := lookup_before here
  obtain ⟨ρ', final⟩ := lookup_grow after
  have wired := finished_wired states keys lifted fun v there => by
    have given : n.layer.props.lookup t.binding.prop = some (v.map ρ) := by
      rw [before, there, Option.map_some]
    have none := quiet _ (Table.mem_of_lookup given)
    rwa [PropOf.actions_map] at none
  exact ⟨wired.method, by rw [final, wired.prop]; rfl, wired.state⟩

/-- The pages of a schema have no states. On a page without states, whose nodes have each property once,
a component method that an action resolves to under the default catalogue gets a function and a state
by lifting if its driven property held no actions: in the place of the action there is the call of the
function, which sets the state to the value of the method, while the property of the component is
bound to the state and the state is false at first; all this whatever else is lifted. Only where
lifting binds the property that the action stands in is there a reference, to a state or a function of
the page, in place of the call. Only a setting without a text can keep the page from being lifted. -/
theorem read_calls_operate :
    (∀ schema log project, (Reading.project .default schema log).1 = .ok project →
      ∀ p ∈ project.pages, p.states = []) ∧
    ∀ p : Page, p.states = [] → p.root.DistinctProps → ∀ log,
      Job.Meets (faults p) (fun q => ∀ a target material m b,
        Resolves .default p.root a target material m b →
        (∀ v, (b.prop, v) ∈ target.layer.props → v.actions = []) →
        ∃ handler state target', Became .default p target target' ∧
          after? .default p target.layer.id = some target' ∧
          (IsServed .default p a → Operates q handler state target' b) ∧
          ∀ n n', Became .default p n n' → ∀ key v (k : Nat), (key, v) ∈ n.layer.props →
            v.actions[k]? = some a → ∃ v', n'.layer.props.lookup key = some v' ∧
              (v'.actions[k]? = some (call handler) ∧ IsServed .default p a ∨
                IsBound .default p q n key v')) (page .default p log).1 := by
  have keeps := Reading.plain_of_readsAsDefault Catalogue.default_readsAsDefault
  refine ⟨fun schema log project read p page =>
    (Reading.project_plain keeps schema log project read p page).1, ?_⟩
  intro p states keys log
  refine (page_ends .default p log).mono ?_ (Set.Subset.refl _)
  rintro _ rfl a target material m b resolves quiet
  obtain ⟨t, n, found, resolves', -⟩ | ⟨-, unresolvable⟩ :=
    @target?_cases .default p.root a resolves.kind
  · obtain rfl := Option.some.inj (resolves.node.symm.trans resolves'.node)
    obtain rfl := Option.some.inj (resolves.known.symm.trans resolves'.known)
    obtain rfl := Option.some.inj (resolves.found.symm.trans resolves'.found)
    obtain rfl := Option.some.inj (resolves.binding.symm.trans resolves'.binding)
    obtain ⟨target', after, before, last⟩ := became_target (c := .default) found resolves.node
    exact ⟨t.handler, t.state, target', ⟨t.index, before, after⟩, last,
      fun served => served_operates states keys found resolves.node quiet served after,
      fun n n' became key v k given action => call_or_bound keys found became given action⟩
  · exact absurd unresolvable resolves.resolvable

theorem dialogPage_operates : dialogPage.states = [] ∧ dialogPage.root.DistinctProps ∧
    ∃ q, (page .default dialogPage []).1 = .ok q ∧ ∃ target material m b,
      Resolves .default dialogPage.root (request "3" "open") target material m b ∧
      (∀ v, (b.prop, v) ∈ target.layer.props → v.actions = []) ∧
      ∃ handler state target', Became .default dialogPage target target' ∧
        Operates q handler state target' b ∧ ∃ button button', Became .default dialogPage button button' ∧
          ∃ v', button'.layer.props.lookup "onClick" = some v' ∧ v'.actions[0]? = some (call handler) := by
  have served := read_calls_operate.2 dialogPage rfl dialogPage_distinctProps []
  rw [dialogPage_ends] at served
  obtain ⟨target, material, m, b, resolves, quiet⟩ : ∃ target material m b,
      Resolves .default dialogPage.root (request "3" "open") target material m b ∧
        ∀ v, (b.prop, v) ∈ target.layer.props → v.actions = [] := by
    refine ⟨_, _, _, _, ⟨rfl, rfl, rfl, rfl, rfl, rfl, rfl⟩, fun v given => ?_⟩
    exact absurd (Prod.mk.inj (List.mem_singleton.1 given)).1 (by decide)
  obtain ⟨handler, state, target', became, -, operates, places⟩ := served _ _ _ _ _ resolves quiet
  let actions : PropOf Node := .many [.action (request "3" "open"), .action (request "9" "open")]
  let button := plainNode "2" "Button" [("onClick", actions)] []
  have there : button ∈ dialogPage.root.walk := List.mem_cons_of_mem _ List.mem_cons_self
  obtain ⟨button', became'⟩ := exists_became (c := .default) there
  obtain ⟨v', final, ⟨called, isServed⟩ | ⟨-, t, lifted, own, -⟩⟩ :=
    places button button' became' "onClick" actions 0 List.mem_cons_self rfl
  · exact ⟨rfl, dialogPage_distinctProps, _, dialogPage_ends, target, material, m, b, resolves, quiet, handler,
      state, target', became, operates isServed, button, button', became', v', final, called⟩
  · have dialog : ((liftedTargets .default dialogPage).all (·.id == "3")) = true := by decide +kernel
    have id := List.all_eq_true.1 dialog t lifted
    rw [own] at id
    cases id

/-- The action that asks a component to open. -/
def opening (id : String) : Action := request id "open"

/-- The property of a schema that is read as this action. -/
def opens (id : String) : Value :=
  .dict [("actions", .list [.dict [("type", .str (opening id).kind), ("config", (opening id).config)]])]

/-- A button that opens a dialog, which opens another one when it is confirmed. -/
def chainSchema : Value :=
  .list [.dict [("id", .str "1"), ("name", .str "Page"), ("children", .list [
    .dict [("id", .str "2"), ("name", .str "Button"), ("props", .dict [("onClick", opens "3")])],
    .dict [("id", .str "3"), ("name", .str "Modal"), ("props", .dict [("onOk", opens "4")])],
    .dict [("id", .str "4"), ("name", .str "Modal")]])]]

theorem chainSchema_read : Schema.read chainSchema = .ok [.mk (.str "1") "Page" [] (some [
    .mk (.str "2") "Button" [("onClick", .mk (opens "3") .none)] none none [],
    .mk (.str "3") "Modal" [("onOk", .mk (opens "4") .none)] none none [],
    .mk (.str "4") "Modal" [] none none []]) none []] := by
  cbv

def chainDialog (id : String) (props : List (String × PropOf Node)) : Node :=
  .mk ⟨id, "Modal", Catalogue.libraryImport (some "Modal") none, props, "Modal", none, none, none⟩

def chainPage : Page :=
  let frame : Dependency := ⟨"@/components/Page", none, none, false, none⟩
  let button := Catalogue.libraryImport (some "Button") none
  { id := "1", fileName := "index", states := [], methods := [], title := none
    dependencies := [frame, button, Catalogue.libraryImport (some "Modal") none]
    root := .mk ⟨"1", "Page", frame, [], "Page", some [
      .mk ⟨"2", "Button", button, [("onClick", .action (opening "3"))], "Button", none, none, none⟩,
      chainDialog "3" [("onOk", .action (opening "4"))], chainDialog "4" []], none, none⟩ }

/-- The second dialog is never opened: the first one's `onOk` is bound before its turn comes. -/
theorem chainPage_drops_call :
    (Reading.project .default chainSchema []).1.map (·.pages) = .ok [chainPage] ∧
    chainPage.root.DistinctIds ∧ chainPage.root.DistinctProps ∧
    ∃ n ∈ chainPage.root.walk, n.layer.id = "3" ∧ ("onOk", .action (opening "4")) ∈ n.layer.props ∧
    ∃ target material m b, Resolves .default chainPage.root (opening "4") target material m b ∧
      target.layer.id = "4" ∧ (∀ v, (b.prop, v) ∈ target.layer.props → v.actions = []) ∧
      ∃ q, (page .default chainPage []).1 = .ok q ∧ ∀ n' ∈ q.root.walk,
        (n'.layer.id = "3" → ∀ v', ("onOk", v') ∈ n'.layer.props → v'.actions = []) ∧
        (n'.layer.id = "4" → n'.layer.props = []) := by
  have lost : ((outcome .default chainPage).root.walk.all fun n =>
      (n.layer.id != "3" || n.layer.props.all fun e => e.1 != "onOk" || e.2.actions.isEmpty) &&
        (n.layer.id != "4" || n.layer.props.isEmpty)) = true := by
    decide +kernel
  have ids : chainPage.root.DistinctIds := by
    unfold Node.DistinctIds
    decide
  have keys : chainPage.root.DistinctProps := by
    unfold Node.DistinctProps
    decide
  have read : (Reading.project .default chainSchema []).1.map (·.pages) = .ok [chainPage] := by
    rw [Reading.project, chainSchema_read]
    rfl
  refine ⟨read, ids, keys, chainDialog "3" [("onOk", .action (opening "4"))], ?_, rfl, List.mem_cons_self,
    chainDialog "4" [], _, _, _, ⟨rfl, rfl, rfl, rfl, rfl, rfl, rfl⟩, rfl, ?_, _,
    (rfl : (page .default chainPage []).1 = .ok (outcome .default chainPage)), fun n' mem => ?_⟩
  · exact List.mem_cons_of_mem _ (List.mem_cons_of_mem _ List.mem_cons_self)
  · rintro v ⟨⟩
  · obtain ⟨first, second⟩ := Bool.and_eq_true_iff.1 (List.all_eq_true.1 lost n' mem)
    constructor
    · intro id v' given
      rw [id] at first
      simpa using List.all_eq_true.1 first _ given
    · intro id
      rw [id] at second
      simpa using second

end Pagesmith.Lifting
