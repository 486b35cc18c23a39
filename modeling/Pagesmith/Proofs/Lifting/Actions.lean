import Pagesmith.Proofs.Lifting.Target
import Pagesmith.Proofs.Lifting.Tree
import Pagesmith.Proofs.Page.Reference

/-!
What becomes of the actions of a page. Lifting keeps every action at its place, as it was or as the
call of a page function, except where it binds the property: what a property that is driven, or a
closing event, held before is given up for a reference.
-/

namespace Pagesmith.Lifting

variable {c : Catalogue} {s : Sheet} {d : Draft} {p q : Page} {root n : Node}

/-- What an action of a page becomes at its place. -/
inductive Becomes (c : Catalogue) (root : Node) (a : Action) : Action → Prop
  | kept (unresolvable : a.kind = componentMethod → Unresolvable c root a) : Becomes c root a a
  | called {n : Node} {material : Material} {m : ComponentMethod} {b : StateBinding}
    (resolves : Resolves c root a n material m b) :
    Becomes c root a (call (Text.methodName m.name n.layer.id))

/-- The value that is there afterwards holds the actions of the given one, each at its place, and is
the given one if that has no actions. -/
structure Survives (c : Catalogue) (root : Node) (v v' : PropOf Node) : Prop where
  actions : List.Forall₂ (Becomes c root) v.actions v'.actions
  rest : v.actions = [] → v' = v

/-- The value has been given up for a reference to a state or a function of the finished page: some
action of the page asks the component with this identifier to run a method, and the property is the
driven one or a closing event. -/
inductive Overwritten (c : Catalogue) (root : Node) (q : Page) (id key : String) : PropOf Node → Prop
  | mk {n n' : Node} {e : String × PropOf Node} {a : Action} {material : Material}
    {m : ComponentMethod} {b : StateBinding} {name : String}
    (mem : n ∈ root.walk) (prop : e ∈ n.layer.props) (action : a ∈ e.2.actions)
    (resolves : Resolves c root a n' material m b) (target : n'.layer.id = id)
    (binds : key = b.prop ∨ ∃ m' ∈ material.methods, closingEvent? b.prop m' = some key)
    (known : q.Knows name) : Overwritten c root q id key (.reference name)

/-- The node stands in a slot that has been given up for a reference. -/
def Displaced (c : Catalogue) (root : Node) (q : Page) (n : Node) : Prop :=
  ∃ m m' key v v', Node.SamePlace root q.root m m' ∧
    (key, v) ∈ m.layer.props ∧ (∃ x ∈ v.slotNodes, n ∈ x.walk) ∧
    (key, v') ∈ m'.layer.props ∧ Overwritten c root q m.layer.id key v'

theorem becomes_lifted (a : Action) : Becomes c root a (lifted c (Sheet.ofNode 0 root) a) := by
  cases found : target? c (Sheet.ofNode 0 root) a with
  | none =>
    rw [lifted_other found]
    exact .kept fun kind => (target?_none_iff kind).1 found
  | some t =>
    obtain ⟨n, resolves, id⟩ := target?_resolves found
    rw [lifted_target found, Target.handler, ← id]
    exact .called resolves

theorem overwritten_of_bound {id key name : String} (h : Bound c (Sheet.ofNode 0 root) id key)
    (known : q.Knows name) : Overwritten c root q id key (.reference name) := by
  obtain ⟨a, t, carries, found, rfl, binds⟩ := h
  obtain ⟨n, mem, e, prop, action⟩ := carried carries
  obtain ⟨n', resolves, target⟩ := target?_resolves found
  refine .mk mem prop action resolves target ?_ known
  cases binds with
  | drive => exact .inl rfl
  | close method closing => exact .inr ⟨_, method, closing⟩

/-- A property without slots survives lifting, or is given up for a reference. -/
theorem survives_or_overwritten {n' : Node} (names : ∀ name, d.Knows name → q.Knows name)
    (alike : Sheet.Alike (Done c (Sheet.ofNode 0 root) d) n n')
    (keys : (n.layer.props.map (·.1)).Nodup) {key : String} {v : PropOf Node}
    (given : (key, v) ∈ n.layer.props) (slotless : v.slotNodes = []) :
    ∃ v', (key, v') ∈ n'.layer.props ∧
      (Survives c root v v' ∨ Overwritten c root q n.layer.id key v') := by
  obtain ⟨e, mem, rfl⟩ := List.mem_map.1 (keys_of_alike (fun _ _ h => h.toRedrawn) alike
    (List.mem_map_of_mem given))
  refine ⟨e.2, mem, ?_⟩
  have settled := settled_of_alike alike e mem
  obtain ⟨key, v'⟩ := e
  cases fate_of_alike (fun _ _ h => h.toRedrawn) alike mem with
  | @given w ρ ρ' given' same =>
    obtain rfl := Table.eq_of_mem keys given' given
    rw [PropOf.slotNodes_map, List.map_eq_nil_iff] at slotless
    have same := same slotless
    refine .inl ⟨?_, fun _ => same⟩
    have actions : (w.map ρ').actions = ((w.map ρ).actions.map (lifted c (Sheet.ofNode 0 root))) := by
      rw [← same, lifted_settled settled]
    rw [actions, List.forall₂_map_right_iff]
    exact List.forall₂_same.2 fun a _ => becomes_lifted a
  | @lifted w ρ' given' asking served =>
    obtain rfl := Table.eq_of_mem keys given' given
    refine .inl ⟨?_, fun none => absurd none (actions_of_asks asking)⟩
    rw [PropOf.actions_map, actions_ofActions, List.forall₂_map_right_iff]
    exact List.forall₂_same.2 fun a _ => becomes_lifted a
  | bound bound known => exact .inr (overwritten_of_bound bound (names _ known))

/-- The entries below a node are there afterwards, except those in slots that have been bound. -/
theorem Redrawn.inside_or_bound {l l' : NodeOf Ref} (h : Redrawn c s d l l')
    (keys : (l.props.map (·.1)).Nodup) {r : Ref} (mem : r ∈ l.inside) :
    r ∈ l'.inside ∨ ∃ e ∈ l.props, r ∈ e.2.slotNodes ∧
      ∃ name, (e.1, .reference name) ∈ l'.props ∧ Bound c s l.id e.1 ∧ d.Knows name := by
  obtain child | ⟨e, given, slot⟩ := NodeOf.mem_inside_cases mem
  · refine .inl (NodeOf.inside_of_child ?_)
    rwa [NodeOf.childNodes, (NodeOf.bare_inj h.bare).2.2]
  · obtain ⟨⟨key, v'⟩, there, same⟩ := List.mem_map.1 (h.keys (List.mem_map_of_mem given))
    obtain ⟨key', v⟩ := e
    obtain rfl : key = key' := same
    cases h.origin _ there with
    | given given' =>
      obtain rfl := Table.eq_of_mem keys given' given
      exact .inl (NodeOf.inside_of_slot there slot)
    | lifted given' asking =>
      obtain rfl := Table.eq_of_mem keys given' given
      dsimp only at slot
      rw [slotNodes_of_asks asking] at slot
      cases slot
    | bound bound known => exact .inr ⟨_, given, slot, _, there, bound, known⟩

/-- Every node is at its place afterwards, or stands in a slot that has been given up. -/
theorem placed_or_displaced (keys : root.DistinctProps)
    (names : ∀ name, d.Knows name → q.Knows name)
    (alike : Sheet.Alike (Done c (Sheet.ofNode 0 root) d) root q.root) :
    ∀ n ∈ root.walk, (∃ n', Node.SamePlace root q.root n n' ∧
      Sheet.Alike (Done c (Sheet.ofNode 0 root) d) n n') ∨ Displaced c root q n := by
  refine Node.forall_mem_walk ?_ (.inl ⟨q.root, .root, alike⟩)
  rintro n (⟨n', place, alike⟩ | ⟨m, m', key, v, v', place, prop, ⟨x, slot, inside⟩, lost⟩) y mem
  · have distinct := keys n place.mem_walk
    obtain @⟨l, l', ρ, ρ', done, -, below⟩ := alike
    change y ∈ (l.map ρ).inside at mem
    change ((l.map ρ).props.map (·.1)).Nodup at distinct
    rw [NodeOf.map, List.map_map] at distinct
    rw [NodeOf.inside_map] at mem
    obtain ⟨r, there, rfl⟩ := List.mem_map.1 mem
    obtain there' | ⟨e, given, slot, name, bound, reason, known⟩ := done.inside_or_bound distinct there
    · exact .inl ⟨ρ' r, narrows_done.place place done there', below r there'⟩
    · refine .inr ⟨_, _, e.1, e.2.map ρ, .reference name, place,
        NodeOf.mem_props_map.2 ⟨e, given, rfl⟩, ⟨ρ r, ?_, Node.self_mem_walk _⟩,
        NodeOf.mem_props_map.2 ⟨_, bound, rfl⟩, overwritten_of_bound reason (names name known)⟩
      rw [PropOf.slotNodes_map]
      exact List.mem_map_of_mem slot
  · refine .inr ⟨m, m', key, v, v', place, prop, ⟨x, slot, ?_⟩, lost⟩
    exact Node.walk_trans inside (Node.mem_walk_inside mem)

/-- On every page whose nodes have each property once, each action is there after lifting at the same
node, property and position, as it was, or as the call of the function for it if it can be resolved;
except where its property, or a slot that it stands in, has been given up for a reference to a state or
a function of the finished page, which lifting has bound there. Only a setting without a text can keep the
page from being lifted. -/
theorem page_keeps_actions (c : Catalogue) (p : Page) (keys : p.root.DistinctProps)
    (log : List Notice) : Job.Meets (faults p) (fun q => ∀ n ∈ p.root.walk,
      (∃ n' ∈ q.root.walk, n'.layer.id = n.layer.id ∧ Node.SamePlace p.root q.root n n' ∧
        ∀ key v, (key, v) ∈ n.layer.props → v.slotNodes = [] → ∃ v', (key, v') ∈ n'.layer.props ∧
          (Survives c p.root v v' ∨ Overwritten c p.root q n.layer.id key v')) ∨
      Displaced c p.root q n) (page c p log).1 := by
  refine (page_ends c p log).mono ?_ (Set.Subset.refl _)
  rintro _ rfl n mem
  have names : ∀ name, (finished c p).Knows name → (outcome c p).Knows name := fun _ known => known
  refine (placed_or_displaced keys names (outcome_done c keys) n mem).imp_left ?_
  rintro ⟨n', place, alike⟩
  refine ⟨n', place.mem_walk', (data_of_alike (fun _ _ h => h.bare) alike).1, place, ?_⟩
  exact fun key v given slotless => survives_or_overwritten names alike (keys n mem) given slotless

theorem dialogPage_keeps_actions : dialogPage.root.DistinctProps ∧
    ∃ q, (page .default dialogPage []).1 = .ok q ∧ ∀ n ∈ dialogPage.root.walk,
      (∃ n' ∈ q.root.walk, n'.layer.id = n.layer.id ∧ Node.SamePlace dialogPage.root q.root n n' ∧
        ∀ key v, (key, v) ∈ n.layer.props → v.slotNodes = [] → ∃ v', (key, v') ∈ n'.layer.props ∧
          (Survives .default dialogPage.root v v' ∨
            Overwritten .default dialogPage.root q n.layer.id key v')) ∨
      Displaced .default dialogPage.root q n := by
  have kept := page_keeps_actions .default dialogPage dialogPage_distinctProps []
  rw [dialogPage_ends] at kept
  exact ⟨dialogPage_distinctProps, _, dialogPage_ends, kept⟩

/-- The dialog says nothing any more when it is confirmed: its action is given up. -/
theorem dialogPage_loses_action : dialogPage.root.DistinctIds ∧ dialogPage.root.DistinctProps ∧
    ∃ q, (page .default dialogPage []).1 = .ok q ∧
      ∃ n ∈ dialogPage.root.walk, ∃ key v a, (key, v) ∈ n.layer.props ∧ v.actions[0]? = some a ∧
        ∀ n' ∈ q.root.walk, n'.layer.id = n.layer.id →
          ∀ v', (key, v') ∈ n'.layer.props → v'.actions = [] := by
  have lost : ((outcome .default dialogPage).root.walk.all fun n =>
      n.layer.id != "3" || n.layer.props.all fun e => e.1 != "onOk" || e.2.actions.isEmpty) = true := by
    decide +kernel
  refine ⟨dialogPage_distinctIds, dialogPage_distinctProps, _, dialogPage_ends,
    plainNode "3" "Modal"
    [("onOk", .action ⟨"showMessage", .dict [("text", .str "saved")]⟩)] [], ?_, "onOk", _, _,
    List.mem_cons_self, rfl, fun n' mem id v' given => ?_⟩
  · exact List.mem_cons_of_mem _ (List.mem_cons_of_mem _ List.mem_cons_self)
  · have here := List.all_eq_true.1 lost n' mem
    rw [id] at here
    have here := List.all_eq_true.1 here (_, v') given
    simpa using here

end Pagesmith.Lifting
