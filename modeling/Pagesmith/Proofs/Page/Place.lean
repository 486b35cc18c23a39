import Pagesmith.Proofs.Page.Sheet

/-!
Places in trees. Two nodes are at the same place of two trees if the same way leads to them: by
children with the same number, and by nodes with the same number in properties of the same name.
-/

namespace Pagesmith

namespace NodeOf

variable {ν : Type}

/-- The nodes that a node lists as children. -/
def childNodes (layer : NodeOf ν) : List ν := layer.children.getD []

theorem childNodes_map {μ : Type} (f : ν → μ) (layer : NodeOf ν) :
    (layer.map f).childNodes = layer.childNodes.map f := by
  obtain ⟨_, _, _, _, _, children, _, _⟩ := layer
  cases children <;> rfl

theorem mem_inside_cases {layer : NodeOf ν} {n : ν} (h : n ∈ layer.inside) :
    n ∈ layer.childNodes ∨ ∃ e ∈ layer.props, n ∈ e.2.slotNodes :=
  (List.mem_append.1 h).imp_right List.mem_flatMap.1

theorem inside_of_child {layer : NodeOf ν} {n : ν} (h : n ∈ layer.childNodes) : n ∈ layer.inside :=
  List.mem_append_left _ h

theorem inside_of_slot {layer : NodeOf ν} {e : String × PropOf ν} (mem : e ∈ layer.props) {n : ν}
    (slot : n ∈ e.2.slotNodes) : n ∈ layer.inside :=
  List.mem_append_right _ (List.mem_flatMap.2 ⟨e, mem, slot⟩)

theorem mem_props_map {μ : Type} {f : ν → μ} {layer : NodeOf ν} {e : String × PropOf μ} :
    e ∈ (layer.map f).props ↔ ∃ e' ∈ layer.props, (e'.1, e'.2.map f) = e :=
  List.mem_map

end NodeOf

namespace Node

/-- The second node is at the place in the second tree that the first one has in the first tree. -/
inductive SamePlace (root root' : Node) : Node → Node → Prop
  | root : SamePlace root root' root root'
  | child {n n' m m' : Node} {index : Nat} (above : SamePlace root root' n n')
    (first : n.layer.childNodes[index]? = some m)
    (second : n'.layer.childNodes[index]? = some m') : SamePlace root root' m m'
  | slot {n n' m m' : Node} {key : String} {p p' : PropOf Node} {index : Nat}
    (above : SamePlace root root' n n')
    (prop : (key, p) ∈ n.layer.props) (prop' : (key, p') ∈ n'.layer.props)
    (first : p.slotNodes[index]? = some m) (second : p'.slotNodes[index]? = some m') :
    SamePlace root root' m m'

variable {root root' n n' : Node}

theorem SamePlace.mem_walk (h : SamePlace root root' n n') : n ∈ root.walk := by
  induction h with
  | root => exact self_mem_walk root
  | child _ first _ ih =>
    exact walk_trans ih (mem_walk_inside (NodeOf.inside_of_child (List.mem_of_getElem? first)))
  | slot _ prop _ first _ ih =>
    exact walk_trans ih (mem_walk_inside (NodeOf.inside_of_slot prop (List.mem_of_getElem? first)))

theorem SamePlace.mem_walk' (h : SamePlace root root' n n') : n' ∈ root'.walk := by
  induction h with
  | root => exact self_mem_walk root'
  | child _ _ second ih =>
    exact walk_trans ih (mem_walk_inside (NodeOf.inside_of_child (List.mem_of_getElem? second)))
  | slot _ _ prop' _ second ih =>
    exact walk_trans ih (mem_walk_inside (NodeOf.inside_of_slot prop' (List.mem_of_getElem? second)))

end Node

namespace Sheet

/-- Entries in this relation have the same children, and whatever slot the second one has is one of
the first one. -/
def Narrows (T : NodeOf Ref → NodeOf Ref → Prop) : Prop := ∀ l l', T l l' →
  l'.children = l.children ∧ ∀ e ∈ l'.props, e.2.slotNodes ≠ [] → e ∈ l.props

variable {T : NodeOf Ref → NodeOf Ref → Prop} {root root' n n' : Node}

theorem Narrows.inside (narrows : Narrows T) (l l' : NodeOf Ref) (h : T l l') :
    l'.inside ⊆ l.inside := by
  obtain ⟨children, slots⟩ := narrows l l' h
  intro r mem
  obtain mem | ⟨e, mem, slot⟩ := NodeOf.mem_inside_cases mem
  · rw [NodeOf.childNodes, children] at mem
    exact NodeOf.inside_of_child mem
  · exact NodeOf.inside_of_slot (slots e mem (List.ne_nil_of_mem slot)) slot

/-- A place leads on over every number that the second entry has inside. -/
theorem Narrows.place (narrows : Narrows T) {l l' : NodeOf Ref} {ρ ρ' : Ref → Node}
    (place : Node.SamePlace root root' (.mk (l.map ρ)) (.mk (l'.map ρ'))) (entries : T l l')
    {r : Ref} (mem : r ∈ l'.inside) : Node.SamePlace root root' (ρ r) (ρ' r) := by
  obtain ⟨children, slots⟩ := narrows l l' entries
  obtain child | ⟨e, given, slot⟩ := NodeOf.mem_inside_cases mem
  · obtain ⟨index, there⟩ := List.mem_iff_getElem?.1 child
    have first : (l.map ρ).childNodes[index]? = some (ρ r) := by
      rw [NodeOf.childNodes_map, List.getElem?_map, NodeOf.childNodes, ← children,
        ← NodeOf.childNodes, there]
      rfl
    have second : (l'.map ρ').childNodes[index]? = some (ρ' r) := by
      rw [NodeOf.childNodes_map, List.getElem?_map, there]
      rfl
    exact place.child first second
  · obtain ⟨index, there⟩ := List.mem_iff_getElem?.1 slot
    have found (σ : Ref → Node) : (e.2.map σ).slotNodes[index]? = some (σ r) := by
      rw [PropOf.slotNodes_map, List.getElem?_map, there]
      rfl
    have before : (e.1, e.2.map ρ) ∈ (l.map ρ).props :=
      NodeOf.mem_props_map.2 ⟨e, slots e given (List.ne_nil_of_mem slot), rfl⟩
    have after : (e.1, e.2.map ρ') ∈ (l'.map ρ').props := NodeOf.mem_props_map.2 ⟨e, given, rfl⟩
    exact place.slot before after (found ρ) (found ρ')

/-- Every node of the walk of the second one of two alike trees is at a place of the first one. -/
theorem Alike.places (narrows : Narrows T) (h : Alike T root root') :
    ∀ n' ∈ root'.walk, ∃ n, Node.SamePlace root root' n n' ∧ Alike T n n' := by
  refine Node.forall_mem_walk ?_ ⟨root, .root, h⟩
  rintro n' ⟨n, place, alike⟩ m' mem
  obtain @⟨l, l', ρ, ρ', entries, -, inside⟩ := alike
  change m' ∈ (l'.map ρ').inside at mem
  rw [NodeOf.inside_map] at mem
  obtain ⟨r, there, rfl⟩ := List.mem_map.1 mem
  exact ⟨ρ r, narrows.place place entries there, inside r there⟩

end Sheet

end Pagesmith
