import Pagesmith.Proofs.Lifting.Settled

/-!
The lifted tree beside the given one. Every node of the lifted tree stands at a place of the given
one, with the same identifier and component; its properties are the given ones, or their actions
lifted, or bound.
-/

namespace Pagesmith.Lifting

variable {c : Catalogue} {s : Sheet} {d : Draft} {p : Page} {T : NodeOf Ref → NodeOf Ref → Prop}

theorem slotNodes_of_asks {ν : Type} {p : PropOf ν} (asking : asks p = true) : p.slotNodes = [] := by
  match p with
  | .action a => rfl
  | .many items =>
    have given := actions_of_asks asking
    rw [PropOf.actions] at given
    split at given
    · next all =>
      refine PropOf.slotNodes_actionList ?_
      rw [PropOf.isActionList, all]
      cases items with
      | nil => exact absurd rfl given
      | cons p r => rfl
    · exact absurd rfl given
  | .literal _ | .reference _ | .expression _ | .function _ | .node _ | .raw _ => cases asking

theorem slotNodes_ofActions (as : List Action) : (ofActions as).slotNodes = [] := by
  match as with
  | [] | [a] | a :: b :: r => rfl

theorem narrows_redrawn : Sheet.Narrows (Redrawn c s d) := by
  intro l l' redrawn
  refine ⟨(NodeOf.bare_inj redrawn.bare).2.2, fun e mem slots => ?_⟩
  cases redrawn.origin e mem with
  | given mem => exact mem
  | lifted => exact absurd (slotNodes_ofActions _) slots
  | bound => exact absurd rfl slots

/-- The nodes of a page, grown again from its sheet. -/
theorem grow_draft (p : Page) : Sheet.grow 0 (draft p).sheet = p.root.walk := Sheet.grow_sheet p.root

/-- What holds of the entries of the two sheets makes the two trees alike. -/
theorem alike_outcome (narrows : Sheet.Narrows T)
    (h : List.Forall₂ T (draft p).sheet (finished c p).sheet) :
    Sheet.Alike T p.root (outcome c p).root := by
  have alike := Sheet.alike_grow narrows.inside (Sheet.leads_sheet p.root) h
  change List.Forall₂ _ (Sheet.grow 0 (draft p).sheet) _ at alike
  rw [grow_draft, Node.walk_eq] at alike
  rw [outcome]
  generalize Sheet.grow 0 (finished c p).sheet = trees at alike
  cases alike with
  | cons root _ => exact root

theorem outcome_alike (c : Catalogue) (p : Page) :
    Sheet.Alike (Redrawn c (draft p).sheet (finished c p)) p.root (outcome c p).root :=
  alike_outcome narrows_redrawn (follows_finished c p).sheet

section Node

variable {n n' : Node}

theorem data_of_alike (sub : ∀ l l', T l l' → l'.bare = l.bare) (h : Sheet.Alike T n n') :
    n'.layer.id = n.layer.id ∧ n'.layer.schemaName = n.layer.schemaName := by
  obtain ⟨entries⟩ := h
  obtain ⟨id, schemaName, -⟩ := NodeOf.bare_inj (sub _ _ entries)
  exact ⟨id, schemaName⟩

/-- What a node has for itself, besides its properties. -/
theorem face_of_alike (sub : ∀ l l', T l l' → l'.bare = l.bare) (h : Sheet.Alike T n n') :
    n'.layer.face = n.layer.face := by
  obtain @⟨l, l', _, _, entries⟩ := h
  have face := congrArg NodeOf.face (sub l l' entries)
  exact face

theorem keys_of_alike (sub : ∀ l l', T l l' → Redrawn c s d l l') (h : Sheet.Alike T n n') :
    n.layer.props.map (·.1) ⊆ n'.layer.props.map (·.1) := by
  obtain @⟨l, l', ρ, ρ', entries⟩ := h
  change (l.map ρ).props.map (·.1) ⊆ (l'.map ρ').props.map (·.1)
  rw [NodeOf.map, NodeOf.map, List.map_map, List.map_map]
  exact (sub l l' entries).keys

/-- What has become of a property of a node. -/
inductive Fate (c : Catalogue) (s : Sheet) (d : Draft) (n : Node) (key : String) :
    PropOf Node → Prop
  | given {v : PropOf Ref} {ρ ρ' : Ref → Node} (mem : (key, v.map ρ) ∈ n.layer.props)
    (same : v.slotNodes = [] → v.map ρ' = v.map ρ) : Fate c s d n key (v.map ρ')
  | lifted {v : PropOf Node} {ρ' : Ref → Node} (mem : (key, v) ∈ n.layer.props)
    (asking : asks v = true) (served : Serves c s d v.actions) :
    Fate c s d n key ((ofActions (v.actions.map (Lifting.lifted c s))).map ρ')
  | bound {name : String} (bound : Bound c s n.layer.id key) (known : d.Knows name) :
    Fate c s d n key (.reference name)

theorem fate_of_alike (sub : ∀ l l', T l l' → Redrawn c s d l l') (h : Sheet.Alike T n n')
    {key : String} {v' : PropOf Node} (mem : (key, v') ∈ n'.layer.props) :
    Fate c s d n key v' := by
  obtain @⟨l, l', ρ, ρ', entries, fixed, -⟩ := h
  obtain ⟨e, there, same⟩ := NodeOf.mem_props_map.1 mem
  obtain ⟨rfl, rfl⟩ := Prod.mk.inj same
  cases (sub l l' entries).origin e there with
  | given given =>
    exact .given (NodeOf.mem_props_map.2 ⟨e, given, rfl⟩) (fixed e given)
  | @lifted key v given asking served =>
    have mem : (key, v.map ρ) ∈ (l.map ρ).props := NodeOf.mem_props_map.2 ⟨_, given, rfl⟩
    rw [← PropOf.actions_map ρ] at served ⊢
    refine .lifted mem ?_ served
    rwa [asks, PropOf.actions_map]
  | bound bound known => exact .bound bound known

end Node

section Done

/-- The nodes of the given sheet and of the lifted one, with what is known of the properties now. -/
structure Done (c : Catalogue) (s : Sheet) (d : Draft) (l l' : NodeOf Ref) : Prop extends
    Redrawn c s d l l' where
  distinct : (l'.props.map (·.1)).Nodup
  settled : ∀ e ∈ l'.props, IsSettled c s e.2

theorem narrows_done {s : Sheet} {d : Draft} : Sheet.Narrows (Done c s d) :=
  fun l l' done => narrows_redrawn l l' done.toRedrawn

theorem forall₂_imp_mem {α β : Type} {R R' : α → β → Prop} {as : List α} {bs : List β}
    (h : List.Forall₂ R as bs) (weaker : ∀ a, ∀ b ∈ bs, R a b → R' a b) : List.Forall₂ R' as bs := by
  induction h with
  | nil => exact .nil
  | cons first _ ih =>
    refine .cons (weaker _ _ List.mem_cons_self first) (ih fun a b mem => ?_)
    exact weaker a b (List.mem_cons_of_mem _ mem)

/-- On a page with different property names lifting leaves every property settled. -/
theorem finished_done (c : Catalogue) {p : Page} (keys : p.root.DistinctProps) :
    List.Forall₂ (Done c (draft p).sheet (finished c p)) (draft p).sheet (finished c p).sheet := by
  have distinct : (finished c p).sheet.DistinctKeys :=
    turns_distinct (Sheet.distinctKeys_ofNode keys)
  have settled : ∀ l ∈ (finished c p).sheet, ∀ e ∈ l.props, IsSettled c (draft p).sheet e.2 := by
    intro l there e mem
    obtain ⟨i, found⟩ := List.mem_iff_getElem?.1 there
    exact finished_settled keys i e (Sheet.mem_props_iff.2 ⟨l, found, mem⟩)
  exact forall₂_imp_mem (follows_finished c p).sheet fun l l' there redrawn =>
    ⟨redrawn, distinct l' there, settled l' there⟩

theorem outcome_done (c : Catalogue) {p : Page} (keys : p.root.DistinctProps) :
    Sheet.Alike (Done c (draft p).sheet (finished c p)) p.root (outcome c p).root :=
  alike_outcome narrows_done (finished_done c keys)

theorem isSettled_map {ν μ : Type} {s : Sheet} (f : ν → μ) {v : PropOf ν} :
    IsSettled c s (v.map f) ↔ IsSettled c s v := by
  constructor
  · rintro ⟨targets, single⟩
    rw [PropOf.actions_map] at targets
    rw [asks, PropOf.actions_map, PropOf.isSingle_map] at single
    exact ⟨targets, single⟩
  · rintro ⟨targets, single⟩
    rw [asks] at single
    refine ⟨?_, ?_⟩
    · rwa [PropOf.actions_map]
    · rwa [asks, PropOf.actions_map, PropOf.isSingle_map]

theorem settled_of_alike {n n' : Node} (h : Sheet.Alike (Done c s d) n n') :
    ∀ e ∈ n'.layer.props, IsSettled c s e.2 := by
  obtain @⟨_, l', _, ρ', done⟩ := h
  intro e mem
  obtain ⟨e', given, rfl⟩ := NodeOf.mem_props_map.1 mem
  exact (isSettled_map ρ').2 (done.settled e' given)

end Done

end Pagesmith.Lifting
