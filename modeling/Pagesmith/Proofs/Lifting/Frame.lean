import Pagesmith.Proofs.Lifting.Actions
import Pagesmith.Proofs.Lifting.Became
import Pagesmith.Proofs.Lifting.Changes

/-!
The frame of lifting. A node keeps all it has besides its properties, and of its properties those
change that a component method of the node drives or is bound to, and those that hold actions for
component methods; in these the actions stay where they are.
-/

namespace Pagesmith

namespace PropOf

/-- The second value has nodes in this relation in the place of the nodes in slots of the first one,
and is the first one if that has no slots. -/
inductive Beside (R : Node → Node → Prop) : PropOf Node → PropOf Node → Prop
  | plain {v : PropOf Node} (slotless : v.slotNodes = []) : Beside R v v
  | slot {n n' : Node} (inside : R n n') : Beside R (.node n) (.node n')
  | slots {ns ns' : List Node} (inside : List.Forall₂ R ns ns') :
    Beside R (.many (ns.map .node)) (.many (ns'.map .node))

theorem many_slotNodes {ν : Type} {items : List (PropOf ν)} (h : (many items).slotNodes ≠ []) :
    items = (many items).slotNodes.map node := by
  rw [slotNodes] at h ⊢
  split at h
  · next all =>
    rw [if_pos all]
    clear h
    induction items with
    | nil => rfl
    | cons p r ih =>
      rw [List.all_cons, Bool.and_eq_true] at all
      cases p with
      | node n =>
        simp only [List.filterMap_cons, node?, List.map_cons]
        rw [← ih all.2]
      | _ => cases all.1
  · exact absurd rfl h

theorem beside_map {R : Node → Node → Prop} {v : PropOf Ref} {ρ ρ' : Ref → Node}
    (fixed : v.slotNodes = [] → v.map ρ' = v.map ρ) (inside : ∀ r ∈ v.slotNodes, R (ρ r) (ρ' r)) :
    Beside R (v.map ρ) (v.map ρ') := by
  by_cases slotless : v.slotNodes = []
  · rw [fixed slotless]
    exact .plain (by rw [slotNodes_map, slotless, List.map_nil])
  · cases v with
    | node r => exact .slot (inside r (List.mem_singleton.2 rfl))
    | many items =>
      have nodes := many_slotNodes slotless
      generalize (many items).slotNodes = refs at nodes inside
      subst nodes
      have image (σ : Ref → Node) : map σ (many (refs.map node)) = many ((refs.map σ).map node) := by
        simp only [map, mapAll_eq, List.map_map]
        rfl
      rw [image, image]
      refine .slots ?_
      rw [List.forall₂_map_left_iff, List.forall₂_map_right_iff]
      exact List.forall₂_same.2 inside
    | _ => exact absurd rfl slotless

end PropOf

namespace Lifting

/-- An action of the page that is lifted asks the component of this node to run a method, and the
property is driven by the method, or the event of a method that closes what this one drives. -/
inductive Targeted (c : Catalogue) (p : Page) (n : Node) (key : String) : Prop
  | mk {t : Target} {a : Action} (lifted : t ∈ liftedTargets c p)
    (resolves : Resolves c p.root a n t.material t.method t.binding) (binds : t.Binds key)

/-- Actions as the value of a property: one stands alone, several stand in a list. -/
def actionsValue : List Action → PropOf Node
  | [a] => .action a
  | as => .many (as.map .action)

/-- The value has actions for component methods, and the other one has what all its actions become,
each in its place. -/
structure Rewrites (c : Catalogue) (root : Node) (v v' : PropOf Node) : Prop where
  asking : asks v = true
  becomes : ∃ as, List.Forall₂ (Becomes c root) v.actions as ∧ v' = actionsValue as

/-- What a node has in common with what it becomes. -/
structure Framed (c : Catalogue) (p : Page) (n n' : Node) : Prop where
  face : n'.layer.face = n.layer.face
  children : Option.Rel (List.Forall₂ (Became c p)) n.layer.children n'.layer.children
  distinct : (n'.layer.props.map (·.1)).Nodup
  props : ∀ key, Targeted c p n key ∨
    Option.Rel (fun v v' => v.Beside (Became c p) v' ∨ Rewrites c p.root v v')
      (n.layer.props.lookup key) (n'.layer.props.lookup key)

/-- No action of the tree can be resolved. -/
def Quiet (c : Catalogue) (root : Node) : Prop :=
  ∀ n ∈ root.walk, ∀ e ∈ n.layer.props, ∀ a ∈ e.2.actions,
    a.kind = componentMethod → Unresolvable c root a

/-- The node has the values of the other one; an action for a component method that was a list of
one stands alone. -/
def Unwrapped (c : Catalogue) (p : Page) (n n' : Node) : Prop :=
  ∀ key, Option.Rel (fun v v' => v.Beside (Became c p) v' ∨
      ∃ a, a.kind = componentMethod ∧ v = .many [.action a] ∧ v' = .action a)
    (n.layer.props.lookup key) (n'.layer.props.lookup key)

variable {c : Catalogue} {s : Sheet} {d : Draft} {p : Page} {root n n' : Node}

theorem map_ofActions (as : List Action) (ρ : Ref → Node) : (ofActions as).map ρ = actionsValue as := by
  have items (as : List Action) : ((PropOf.many (as.map .action)).map ρ) = .many (as.map .action) := by
    simp only [PropOf.map, PropOf.mapAll_eq, List.map_map]
    rfl
  match as with
  | [] => rfl
  | [a] => rfl
  | a :: b :: r => exact items (a :: b :: r)

theorem targeted_of_id (ids : p.root.DistinctIds) (mem : n ∈ p.root.walk) {key : String}
    (h : ∃ t ∈ liftedTargets c p, t.id = n.layer.id ∧ t.Binds key) : Targeted c p n key := by
  obtain ⟨t, lifted, same, binds⟩ := h
  obtain ⟨a, target, resolves, there, own⟩ := liftedTargets_resolve lifted
  have first := Node.find?_of_distinctIds ids mem
  have second := Node.find?_of_distinctIds ids there
  rw [own, same] at second
  obtain rfl := Option.some.inj (first.symm.trans second)
  exact .mk lifted resolves binds

/-- The node that is kept; a blank one for a row. -/
def keptNode : Ref → Node
  | .kept n => n
  | .at _ => .blank

/-- A list of actions is what its actions make, unless it is a list of one. -/
theorem actionsValue_actions {v : PropOf Node} (given : v.actions ≠ []) (many : v.isSingle = false) :
    actionsValue v.actions = v := by
  have kept : ofActions (v.map Ref.kept).actions = v.map .kept :=
    ofActions_actions (by rwa [PropOf.actions_map]) (by rwa [PropOf.isSingle_map])
  rw [PropOf.actions_map] at kept
  rw [← map_ofActions _ keptNode, kept, PropOf.map_cancel fun _ => rfl]

theorem rel_imp {α β : Type} {R R' : α → β → Prop} {o : Option α} {o' : Option β}
    (h : Option.Rel R o o') (weaker : ∀ a ∈ o, ∀ b, R a b → R' a b) : Option.Rel R' o o' := by
  cases h with
  | none => exact .none
  | some related => exact .some (weaker _ rfl _ related)

/-- What the entries of a page and of the lifted page have in common. -/
structure Lasts (c : Catalogue) (p : Page) (l l' : NodeOf Ref) : Prop extends
    Done c (draft p).sheet (finished c p) l l' where
  keysBefore : (l.props.map (·.1)).Nodup
  values : ∀ key, (∃ t ∈ liftedTargets c p, t.id = l.id ∧ t.Binds key) ∨
    Option.Rel (Stage c (draft p).sheet) (l.props.lookup key) (l'.props.lookup key)

theorem finished_lasts (c : Catalogue) {p : Page} (keys : p.root.DistinctProps) :
    List.Forall₂ (Lasts c p) (draft p).sheet (finished c p).sheet := by
  have done := finished_done c keys
  refine List.forall₂_iff_get.2 ⟨done.length_eq, fun i bound bound' => ?_⟩
  refine ⟨done.get bound bound', Sheet.distinctKeys_ofNode keys _ (List.getElem_mem bound), ?_⟩
  intro key
  have traced := traced_finished c keys i key
  rw [Sheet.props, Sheet.props, List.getElem?_eq_getElem bound, List.getElem?_eq_getElem bound'] at traced
  refine traced.imp_left ?_
  rintro ⟨t, lifted, rfl, binds⟩
  obtain ⟨a, found⟩ := turnsTargets_target _ _ t lifted
  have own := id_of_target found
  rw [List.getElem?_eq_getElem bound] at own
  exact ⟨t, lifted, (Option.some.inj own).symm, binds⟩

/-- A property of a node is bound, or its value stays, or its actions are lifted. -/
theorem bound_or_rel_of_became (keys : p.root.DistinctProps) (became : Became c p n n')
    (key : String) : (∃ t ∈ liftedTargets c p, t.id = n.layer.id ∧ t.Binds key) ∨
      Option.Rel (fun v v' => v.Beside (Became c p) v' ∨
          asks v = true ∧ v' = actionsValue (v.actions.map (lifted c (draft p).sheet)))
        (n.layer.props.lookup key) (n'.layer.props.lookup key) := by
  obtain @⟨l, l', ρ, ρ', lasts, fixed, inside⟩ := became_matched (finished_lasts c keys) became
  have values (l : NodeOf Ref) (ρ : Ref → Node) :
      (Node.mk (l.map ρ)).layer.props.lookup key = (l.props.lookup key).map (PropOf.map ρ) :=
    Table.lookup_mapValues (PropOf.map ρ) key l.props
  refine (lasts.values key).imp_right fun rel => ?_
  have there {v} (found : l.props.lookup key = some v) := Table.mem_of_lookup found
  rw [values, values]
  generalize l.props.lookup key = o, l'.props.lookup key = o' at rel there
  cases rel with
  | none => exact .none
  | some stage =>
    have given := there rfl
    refine .some ?_
    cases stage with
    | same => exact .inl (PropOf.beside_map (fixed _ given) fun r slot =>
        inside r (NodeOf.inside_of_slot given slot))
    | lifted asking =>
      exact .inr ⟨by rwa [asks, PropOf.actions_map], by rw [map_ofActions, PropOf.actions_map]⟩

theorem rewrites_lifted {v : PropOf Node} (asking : asks v = true) :
    Rewrites c root v (actionsValue (v.actions.map (lifted c (Sheet.ofNode 0 root)))) := by
  refine ⟨asking, _, ?_, rfl⟩
  rw [List.forall₂_map_right_iff]
  exact List.forall₂_same.2 fun a _ => becomes_lifted a

theorem framed_of_became (ids : p.root.DistinctIds) (keys : p.root.DistinctProps)
    (became : Became c p n n') : Framed c p n n' := by
  have props (key) := bound_or_rel_of_became keys became key
  have mem := became.mem
  obtain @⟨l, l', ρ, ρ', done, -, inside⟩ := became_matched (finished_done c keys) became
  have face := congrArg NodeOf.face done.bare
  have children := (NodeOf.bare_inj done.bare).2.2
  refine ⟨face, ?_, ?_, fun key => (props key).imp (targeted_of_id ids mem) fun rel => ?_⟩
  · change Option.Rel _ (l.children.map (·.map ρ)) (l'.children.map (·.map ρ'))
    rw [children]
    cases below : l.children with
    | none => exact .none
    | some refs =>
      refine .some ?_
      rw [List.forall₂_map_left_iff, List.forall₂_map_right_iff]
      refine List.forall₂_same.2 fun r there => inside r (NodeOf.inside_of_child ?_)
      rwa [NodeOf.childNodes, below]
  · change ((l'.map ρ').props.map (·.1)).Nodup
    rw [NodeOf.map, List.map_map]
    exact done.distinct
  · refine rel_imp rel fun v _ v' => Or.imp_right ?_
    rintro ⟨asking, rfl⟩
    exact rewrites_lifted asking

section Quiet

theorem Quiet.target (quiet : Quiet c root) {e : String × PropOf Node} {a : Action}
    (mem : n ∈ root.walk) (prop : e ∈ n.layer.props) (action : a ∈ e.2.actions) :
    target? c (Sheet.ofNode 0 root) a = none := by
  by_cases kind : a.kind = componentMethod
  · exact (target?_none_iff kind).2 (quiet n mem e prop a action kind)
  · rw [target?, if_neg (by simpa using kind)]

theorem Quiet.carries (quiet : Quiet c root) {a : Action} (h : Carries (Sheet.ofNode 0 root) a) :
    target? c (Sheet.ofNode 0 root) a = none := by
  obtain ⟨n, mem, e, prop, action⟩ := carried h
  exact quiet.target mem prop action

/-- The turn of a node with these properties, none of whose actions can be lifted, changes no state
and no function, and brings in no action that can be lifted. -/
theorem turn_quiet {index : Nat} {ps : List (String × PropOf Ref)}
    (bare : d.sheet.map NodeOf.bare = s.map NodeOf.bare)
    (own : ∀ e ∈ ps, ∀ a ∈ e.2.actions, target? c s a = none)
    (all : ∀ i, ∀ e ∈ d.sheet.props i, ∀ a ∈ e.2.actions, target? c s a = none) :
    (turn c index ps d).states = d.states ∧ (turn c index ps d).methods = d.methods ∧
      ∀ i, ∀ e ∈ (turn c index ps d).sheet.props i, ∀ a ∈ e.2.actions, target? c s a = none := by
  induction ps generalizing d with
  | nil => exact ⟨rfl, rfl, all⟩
  | cons e r ih =>
    obtain ⟨key, p⟩ := e
    rw [List.forall_mem_cons] at own
    rw [turn]
    split
    · have idle : p.actions.foldl (effect c) d = d :=
        effects_idle fun a mem => (target?_bare bare a).trans (own.1 a mem)
      dsimp only
      rw [idle, lifted_bare bare]
      refine ih ((Sheet.bare_setProp ..).trans bare) own.2 fun i e mem => ?_
      obtain rfl | mem := Sheet.mem_props_setProp mem
      · exact (isSettled_ofActions p.actions).targets
      · exact all i e mem
    · exact ih bare own.2 all

theorem turns_quiet {indices : List Nat} (bare : d.sheet.map NodeOf.bare = s.map NodeOf.bare)
    (all : ∀ i, ∀ e ∈ d.sheet.props i, ∀ a ∈ e.2.actions, target? c s a = none) :
    (turns c indices d).states = d.states ∧ (turns c indices d).methods = d.methods ∧
      turnsTargets c indices d = [] := by
  induction indices generalizing d with
  | nil => exact ⟨rfl, rfl, rfl⟩
  | cons index r ih =>
    obtain ⟨states, methods, all'⟩ := turn_quiet bare (all index) all
    obtain ⟨states', methods', none'⟩ := ih ((turn_bare index _ d).trans bare) all'
    have none : turnTargets c d.sheet (d.sheet.props index) = [] := by
      refine List.flatMap_eq_nil_iff.2 fun e mem => List.filterMap_eq_nil_iff.2 fun a action => ?_
      rw [target?_bare bare]
      exact all index e mem a action
    exact ⟨states'.trans states, methods'.trans methods, by rw [turnsTargets, none, none']; rfl⟩

theorem finished_quiet (quiet : Quiet c p.root) : (finished c p).states = p.states ∧
    (finished c p).methods = p.methods ∧ liftedTargets c p = [] := by
  refine @turns_quiet c (draft p).sheet (draft p) _ rfl fun i e mem a action => ?_
  obtain ⟨l, there, mem⟩ := Sheet.mem_props_iff.1 mem
  exact quiet.carries ⟨l, List.mem_of_getElem? there, e, mem, action⟩

/-- Actions for component methods are what they were as a value, unless they are a list of one. -/
theorem actionsValue_cases {v : PropOf Node} (asking : asks v = true) : actionsValue v.actions = v ∨
    ∃ a, a.kind = componentMethod ∧ v = .many [.action a] ∧ actionsValue v.actions = .action a := by
  cases single : v.isSingle with
  | false => exact .inl (actionsValue_actions (actions_of_asks asking) single)
  | true =>
    match v with
    | .many [.action a] =>
      exact .inr ⟨a, by simpa [asks, PropOf.actions, PropOf.action?] using asking, rfl, rfl⟩

theorem unwrapped_of_became (quiet : Quiet c p.root) (keys : p.root.DistinctProps)
    (became : Became c p n n') : Unwrapped c p n n' := by
  intro key
  obtain ⟨t, lifted, -⟩ | rel := bound_or_rel_of_became keys became key
  · rw [(finished_quiet quiet).2.2] at lifted
    cases lifted
  · refine rel_imp rel fun v found v' related => ?_
    obtain beside | ⟨asking, rfl⟩ := related
    · exact .inl beside
    · have idle : v.actions.map (lifted c (draft p).sheet) = v.actions :=
        map_lifted_idle fun a => quiet.target became.mem (Table.mem_of_lookup found)
      rw [idle]
      obtain same | ⟨a, kind, list, alone⟩ := actionsValue_cases asking
      · rw [same]
        exact .inl (.plain (slotNodes_of_asks asking))
      · exact .inr ⟨a, kind, list, alone⟩

end Quiet

/-- On every page with different identifiers, whose nodes have each property once, each node keeps
after lifting all it has besides its properties, with what its children have become as children; and
each of its properties is one that the methods of its component drive or are bound to, as the target
of an action of the page; or it holds actions for component methods, and what these and the other
actions become at their places; or it stays, with what the nodes in its slots have become. If no
action can be resolved, the states and functions stay, and so do all values, up to lists of one action.
Only a setting without a text can keep the page from being lifted. -/
theorem page_frames (c : Catalogue) (p : Page) (ids : p.root.DistinctIds)
    (keys : p.root.DistinctProps) (log : List Notice) : Job.Meets (faults p) (fun q =>
      Became c p p.root q.root ∧ (∀ n ∈ p.root.walk, ∃ n', Became c p n n') ∧
      (∀ n' ∈ q.root.walk, ∃ n, Became c p n n') ∧
      (∀ n n', Became c p n n' → Framed c p n n') ∧
      (Quiet c p.root → q.states = p.states ∧ q.methods = p.methods ∧
        ∀ n n', Became c p n n' → Unwrapped c p n n')) (page c p log).1 := by
  refine (page_ends c p log).mono ?_ (Set.Subset.refl _)
  rintro _ rfl
  refine ⟨became_root c p, fun _ => exists_became, became_of_walk, fun _ _ => framed_of_became ids keys,
    fun quiet => ?_⟩
  obtain ⟨states, methods, -⟩ := finished_quiet quiet
  exact ⟨states, methods, fun _ _ => unwrapped_of_became quiet keys⟩

/-- A page with a button that tries to open a dialog that is not there. -/
def stillPage : Page :=
  { dialogPage with
    root := plainNode "1" "Page" [] [
      plainNode "2" "Button" [("onClick", .many [.action (request "9" "open")])] []] }

theorem stillPage_quiet : Quiet .default stillPage.root := by
  have absent : (stillPage.root.walk.all fun n => n.layer.props.all fun e => e.2.actions.all fun a =>
      (stillPage.root.find? (a.setting "componentId").text).isNone) = true := by
    decide +kernel
  intro n mem e prop a action _
  have here := List.all_eq_true.1 (List.all_eq_true.1 (List.all_eq_true.1 absent n mem) e prop) a action
  exact .noNode (Option.isNone_iff_eq_none.1 here)

theorem samplePages_framed :
    (dialogPage.root.DistinctIds ∧ dialogPage.root.DistinctProps ∧
      ∃ q, (page .default dialogPage []).1 = .ok q ∧ Became .default dialogPage dialogPage.root q.root ∧
        ∀ n n', Became .default dialogPage n n' → Framed .default dialogPage n n') ∧
    (stillPage.root.DistinctIds ∧ stillPage.root.DistinctProps ∧ Quiet .default stillPage.root ∧
      ∃ q, (page .default stillPage []).1 = .ok q ∧ q.states = [] ∧ q.methods = [] ∧
        ∀ n n', Became .default stillPage n n' → Unwrapped .default stillPage n n') := by
  have ids : stillPage.root.DistinctIds := by
    unfold Node.DistinctIds
    decide
  have keys : stillPage.root.DistinctProps := by
    unfold Node.DistinctProps
    decide
  constructor
  · have frames := page_frames .default dialogPage dialogPage_distinctIds dialogPage_distinctProps []
    rw [dialogPage_ends] at frames
    obtain ⟨root, -, -, framed, -⟩ := frames
    exact ⟨dialogPage_distinctIds, dialogPage_distinctProps, _, dialogPage_ends, root, framed⟩
  · have ends : (page .default stillPage []).1 = .ok (outcome .default stillPage) := rfl
    have frames := page_frames .default stillPage ids keys []
    rw [ends] at frames
    obtain ⟨-, -, -, -, quiet⟩ := frames
    obtain ⟨states, methods, unwrapped⟩ := quiet stillPage_quiet
    exact ⟨ids, keys, stillPage_quiet, _, ends, states, methods, unwrapped⟩

end Lifting

end Pagesmith
