import Pagesmith.Catalogue.Default
import Pagesmith.Proofs.Lifting.Origin
import Pagesmith.Proofs.Page.Uniform

/-!
What an action means on a page tree. Lifting looks targets up in the sheet of the tree it starts
from; here they are read off the tree itself.
-/

namespace Pagesmith.Lifting

variable {c : Catalogue} {root : Node} {a : Action}

/-- The action asks the component of this node to run this method, which drives a property. -/
structure Resolves (c : Catalogue) (root : Node) (a : Action) (n : Node) (material : Material)
    (m : ComponentMethod) (b : StateBinding) : Prop where
  kind : a.kind = componentMethod
  component : (a.setting "componentId").isNull = false
  method : (a.setting "method").isTruthy = true
  node : root.find? (a.setting "componentId").text = some n
  known : c.material? n.layer.schemaName = some material
  found : material.method? (a.setting "method").text = some m
  binding : m.binding = some b

/-- The action names no component or no method, or a component that the tree does not have, or a
method that its component does not drive by a property. -/
inductive Unresolvable (c : Catalogue) (root : Node) (a : Action) : Prop
  | noComponent (null : (a.setting "componentId").isNull = true)
  | noMethod (falsy : (a.setting "method").isTruthy = false)
  | noNode (absent : root.find? (a.setting "componentId").text = none)
  | unbound {n : Node} (node : root.find? (a.setting "componentId").text = some n)
    (unbound : ∀ material m, c.material? n.layer.schemaName = some material →
      material.method? (a.setting "method").text = some m → m.binding = none)

theorem Resolves.resolvable {n : Node} {material : Material} {m : ComponentMethod}
    {b : StateBinding} (h : Resolves c root a n material m b) : ¬ Unresolvable c root a := by
  intro unresolvable
  cases unresolvable with
  | noComponent null =>
    rw [h.component] at null
    cases null
  | noMethod falsy =>
    rw [h.method] at falsy
    cases falsy
  | noNode absent =>
    rw [h.node] at absent
    cases absent
  | unbound node unbound =>
    obtain rfl := Option.some.inj (h.node.symm.trans node)
    have none := unbound material m h.known h.found
    rw [h.binding] at none
    cases none

/-- A component method has a target on the sheet exactly if it can be resolved on the tree. -/
theorem target?_cases (kind : a.kind = componentMethod) :
    (∃ t n, target? c (Sheet.ofNode 0 root) a = some t ∧
      Resolves c root a n t.material t.method t.binding ∧ n.layer.id = t.id) ∨
    target? c (Sheet.ofNode 0 root) a = none ∧ Unresolvable c root a := by
  -- The lookups are followed in the order in which they are made; each that fails is one of the reasons
  -- why the action cannot be resolved.
  have node := Sheet.find?_sheet root (a.setting "componentId").text
  rw [target?, if_pos (beq_iff_eq.2 kind), resolve]
  dsimp only
  split
  · next incomplete =>
    obtain null | falsy := Bool.or_eq_true_iff.1 incomplete
    · exact .inr ⟨rfl, .noComponent null⟩
    · exact .inr ⟨rfl, .noMethod (by simpa using falsy)⟩
  next complete =>
  obtain ⟨component, method⟩ := not_or.1 (mt Bool.or_eq_true_iff.2 complete)
  cases index : (Sheet.ofNode 0 root).lastIndex? (a.setting "componentId").text with
  | none =>
    rw [index, Option.bind_none, Option.map_none, Option.map_eq_none_iff] at node
    exact .inr ⟨rfl, .noNode node⟩
  | some i =>
  rw [index, Option.bind_some] at node
  dsimp only
  cases entry : (Sheet.ofNode 0 root)[i]? with
  | none =>
    rw [entry, Option.map_none, Option.map_eq_none_iff] at node
    exact .inr ⟨rfl, .noNode node⟩
  | some l =>
  rw [entry, Option.map_some, Option.map_eq_some_iff] at node
  obtain ⟨n, found, same⟩ := node
  obtain ⟨id, name⟩ := Prod.mk.inj same
  dsimp only
  rw [← name]
  cases known : c.material? n.layer.schemaName with
  | none =>
    refine .inr ⟨rfl, .unbound found fun material m known' => ?_⟩
    rw [known] at known'
    cases known'
  | some material =>
  dsimp only
  cases there : material.method? (a.setting "method").text with
  | none =>
    refine .inr ⟨rfl, .unbound found fun material' m known' there' => ?_⟩
    obtain rfl := Option.some.inj (known.symm.trans known')
    rw [there] at there'
    cases there'
  | some m =>
  dsimp only
  cases binding : m.binding with
  | none =>
    refine .inr ⟨rfl, .unbound found fun material' m' known' there' => ?_⟩
    obtain rfl := Option.some.inj (known.symm.trans known')
    obtain rfl := Option.some.inj (there.symm.trans there')
    exact binding
  | some b =>
    refine .inl ⟨_, n, rfl, ?_, id⟩
    exact ⟨kind, by simpa using component, by simpa using method, found, known, there, binding⟩

theorem target?_none_iff (kind : a.kind = componentMethod) :
    target? c (Sheet.ofNode 0 root) a = none ↔ Unresolvable c root a := by
  obtain ⟨t, n, found, resolves, -⟩ | ⟨none, unresolvable⟩ := @target?_cases c root a kind
  · rw [found]
    exact ⟨(nomatch ·), fun h => absurd h resolves.resolvable⟩
  · exact ⟨fun _ => unresolvable, fun _ => none⟩

theorem target?_resolves {t : Target} (h : target? c (Sheet.ofNode 0 root) a = some t) :
    ∃ n, Resolves c root a n t.material t.method t.binding ∧ n.layer.id = t.id := by
  obtain ⟨t', n, found, resolves, id⟩ | ⟨none, -⟩ := @target?_cases c root a (kind_of_target h)
  · obtain rfl := Option.some.inj (h.symm.trans found)
    exact ⟨n, resolves, id⟩
  · rw [none] at h
    cases h

theorem carried (h : Carries (Sheet.ofNode 0 root) a) :
    ∃ n ∈ root.walk, ∃ e ∈ n.layer.props, a ∈ e.2.actions := by
  obtain ⟨l, there, e, given, mem⟩ := h
  obtain ⟨ρ, -, walked⟩ := Sheet.mem_ofNode there
  refine ⟨_, walked, _, NodeOf.mem_props_map.2 ⟨e, given, rfl⟩, ?_⟩
  rwa [PropOf.actions_map]

theorem carries_of_walk {n : Node} (mem : n ∈ root.walk) {e : String × PropOf Node} (prop : e ∈ n.layer.props)
    (action : a ∈ e.2.actions) : Carries (Sheet.ofNode 0 root) a := by
  have same := Sheet.map_grow (fun l => l.props.map fun e => e.2.actions) (fun l => l.props.map fun e => e.2.actions)
    (fun l ρ => by simp [NodeOf.map, PropOf.actions_map, Function.comp_def]) 0 (Sheet.ofNode 0 root)
  have there := List.mem_map_of_mem (f := fun n : Node => n.layer.props.map fun e => e.2.actions) mem
  rw [← Sheet.grow_sheet, same] at there
  obtain ⟨l, entry, actions⟩ := List.mem_map.1 there
  have given := List.mem_map_of_mem (f := fun e : String × PropOf Node => e.2.actions) prop
  rw [← actions] at given
  obtain ⟨e', prop', same'⟩ := List.mem_map.1 given
  exact ⟨l, entry, e', prop', same' ▸ action⟩

/-- A page whose actions have short settings is lifted without a fault. -/
theorem faults_eq_empty {p : Page} (short : ∀ n ∈ p.root.walk, ∀ e ∈ n.layer.props, ∀ a ∈ e.2.actions,
    a.config.holdsLongNumber = false) : faults p = ∅ := by
  refine Set.eq_empty_of_forall_notMem fun f => ?_
  rintro ⟨a, there, -, texts⟩
  obtain ⟨n, mem, e, prop, action⟩ := carried there
  have none := short n mem e prop a action
  rw [long_of_checkTexts texts] at none
  cases none

theorem page_ends_of_short (c : Catalogue) {p : Page} (short : ∀ n ∈ p.root.walk, ∀ e ∈ n.layer.props,
    ∀ a ∈ e.2.actions, a.config.holdsLongNumber = false) : (page c p).Ends (outcome c p) := by
  intro log
  have ends := page_ends c p
  rw [faults_eq_empty short] at ends
  obtain ⟨q, ok, rfl⟩ := ends.gives log
  exact ok

/-- What has no text on one sheet has none on another with more identifiers. -/
theorem checkTexts_mono {s s' : Sheet} (more : s.map (·.id) ⊆ s'.map (·.id)) {f : Fault}
    (texts : checkTexts s a = .error f) : checkTexts s' a = .error f := by
  rw [checkTexts] at texts ⊢
  split at texts
  · cases texts
  next asking =>
  rw [if_neg asking]
  cases id : (a.setting "componentId").text? with
  | error e =>
    rw [id] at texts
    exact texts
  | ok text =>
    simp only [id, bind, Except.bind] at texts ⊢
    split at texts
    · next there =>
      rw [if_pos (Sheet.lastIndex?_isSome.2 (more (Sheet.lastIndex?_isSome.1 there)))]
      exact texts
    · cases texts

/-- A node of a component of the target library, without styles. -/
def plainNode (id name : String) (props : List (String × PropOf Node)) (children : List Node) :
    Node :=
  .mk ⟨id, name, Dependency.none, props, name, some children, none, none⟩

/-- The action that asks a component to run a method. -/
def request (id method : String) : Action :=
  ⟨componentMethod, .dict [("componentId", .str id), ("method", .str method)]⟩

/-- A page with a button that opens a dialog, and tries to open one that is not there. The dialog
says something when it is confirmed. -/
def dialogPage : Page :=
  { id := "1", fileName := "index", dependencies := [], states := [], methods := [], title := none
    root := plainNode "1" "Page" [] [
      plainNode "2" "Button"
        [("onClick", .many [.action (request "3" "open"), .action (request "9" "open")])] [],
      plainNode "3" "Modal"
        [("onOk", .action ⟨"showMessage", .dict [("text", .str "saved")]⟩)] []] }

theorem dialogPage_faults : faults dialogPage = ∅ := by
  refine faults_eq_empty fun n mem e prop a action => ?_
  have short : (dialogPage.root.walk.all fun n => n.layer.props.all fun e => e.2.actions.all fun a =>
      !a.config.holdsLongNumber) = true := rfl
  simpa using List.all_eq_true.1 (List.all_eq_true.1 (List.all_eq_true.1 short n mem) e prop) a action

theorem dialogPage_ends : (page .default dialogPage []).1 = .ok (outcome .default dialogPage) := rfl

theorem dialogPage_distinctIds : dialogPage.root.DistinctIds := by
  unfold Node.DistinctIds
  decide

theorem dialogPage_distinctProps : dialogPage.root.DistinctProps := by
  unfold Node.DistinctProps
  decide

end Pagesmith.Lifting
