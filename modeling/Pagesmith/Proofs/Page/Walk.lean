import Pagesmith.Page.Walk
import Pagesmith.Proofs.Page.Below

/-!
The walk through a tree: it starts at the root and goes through the nodes right inside it, its
children and the nodes in its slots, one after the other.
-/

namespace Pagesmith

namespace NodeOf

variable {ν μ : Type}

/-- The nodes right inside a node that a walk goes to. -/
def inside (layer : NodeOf ν) : List ν :=
  layer.children.getD [] ++ layer.props.flatMap fun e => e.2.slotNodes

theorem inside_subset_below (layer : NodeOf ν) : layer.inside ⊆ layer.below := by
  intro n mem
  obtain mem | mem := List.mem_append.1 mem
  · exact List.mem_append_right _ mem
  · obtain ⟨e, found, slot⟩ := List.mem_flatMap.1 mem
    exact List.mem_append_left _ (List.mem_flatMap.2 ⟨e, found, e.2.slotNodes_subset slot⟩)

theorem inside_map (f : ν → μ) (layer : NodeOf ν) : (layer.map f).inside = layer.inside.map f := by
  have props : ((layer.props.map fun e => (e.1, e.2.map f)).flatMap fun e => e.2.slotNodes) =
      (layer.props.flatMap fun e => e.2.slotNodes).map f := by
    rw [List.flatMap_map, List.map_flatMap]
    simp only [PropOf.slotNodes_map]
  have children : (layer.children.map (·.map f)).getD [] = (layer.children.getD []).map f := by
    cases layer.children <;> rfl
  simp only [inside, map, List.map_append, props, children]

end NodeOf

namespace Node

theorem walkAll_eq (ns : List Node) : walkAll ns = ns.flatMap walk := by
  induction ns with
  | nil => rfl
  | cons n r ih => rw [walkAll, ih, List.flatMap_cons]

theorem walkItems_eq (items : List (PropOf Node)) :
    walkItems items = (items.filterMap PropOf.node?).flatMap walk := by
  induction items with
  | nil => rfl
  | cons p r ih =>
    cases p with
    | node n =>
      rw [walkItems, ih]
      rfl
    | _ => exact ih

theorem isSlotItem_eq (p : PropOf Node) : isSlotItem p = p.node?.isSome := by
  cases p <;> rfl

theorem walkProp_eq (p : PropOf Node) : walkProp p = p.slotNodes.flatMap walk := by
  cases p with
  | node n => simp [walkProp, PropOf.slotNodes]
  | many items =>
    have all : items.all isSlotItem = items.all fun p => p.node?.isSome :=
      congrArg items.all (funext isSlotItem_eq)
    rw [walkProp, PropOf.slotNodes, all]
    split
    · exact walkItems_eq items
    · rfl
  | _ => rfl

theorem walkProps_eq (ps : List (String × PropOf Node)) :
    walkProps ps = (ps.flatMap fun e => e.2.slotNodes).flatMap walk := by
  induction ps with
  | nil => rfl
  | cons e r ih =>
    obtain ⟨key, p⟩ := e
    rw [walkProps, ih, walkProp_eq, List.flatMap_cons, List.flatMap_append]

/-- A walk starts at its root and goes through the nodes right inside it. -/
theorem walk_eq (n : Node) : n.walk = n :: n.layer.inside.flatMap walk := by
  match n with
  | .mk ⟨_, _, _, props, _, none, _, _⟩ =>
    simp only [walk, walkProps_eq]
    rfl
  | .mk ⟨_, _, _, props, _, some cs, _, _⟩ =>
    simp only [walk, walkProps_eq, walkAll_eq]
    rw [NodeOf.inside, List.flatMap_append]
    rfl

theorem self_mem_walk (n : Node) : n ∈ n.walk := by
  rw [walk_eq]
  exact List.mem_cons_self

/-- What holds of a node and passes to the nodes right inside holds on the whole walk. -/
theorem forall_mem_walk {P : Node → Prop} (pass : ∀ n, P n → ∀ m ∈ n.layer.inside, P m) {n : Node}
    (h : P n) : ∀ m ∈ n.walk, P m := by
  induction n using Node.induction with
  | step n ih =>
    rw [walk_eq]
    simp only [List.forall_mem_cons, List.mem_flatMap, forall_exists_index, and_imp]
    exact ⟨h, fun m x mem => ih x (n.layer.inside_subset_below mem) (pass n h x mem) m⟩

theorem walk_trans {n m : Node} (h : m ∈ n.walk) : m.walk ⊆ n.walk := by
  induction n using Node.induction with
  | step n ih =>
    rw [walk_eq] at h
    obtain rfl | h := List.mem_cons.1 h
    · exact List.Subset.refl _
    · obtain ⟨x, mem, found⟩ := List.mem_flatMap.1 h
      intro y inner
      rw [walk_eq]
      exact List.mem_cons_of_mem _
        (List.mem_flatMap.2 ⟨x, mem, ih x (n.layer.inside_subset_below mem) found inner⟩)

theorem mem_walk_inside {n m : Node} (h : m ∈ n.layer.inside) : m ∈ n.walk := by
  rw [walk_eq]
  exact List.mem_cons_of_mem _ (List.mem_flatMap.2 ⟨m, h, self_mem_walk m⟩)

/-- No two nodes of a tree have the same identifier. -/
def DistinctIds (root : Node) : Prop := (root.walk.map (·.layer.id)).Nodup

/-- No node of a tree has two properties of the same name. -/
def DistinctProps (root : Node) : Prop := ∀ n ∈ root.walk, (n.layer.props.map (·.1)).Nodup

/-- The layers of all nodes of a tree have this property, also of nodes that no walk goes to. -/
inductive Everywhere (P : NodeOf Node → Prop) : Node → Prop
  | mk {layer : NodeOf Node} (here : P layer) (below : ∀ n ∈ layer.below, Everywhere P n) :
    Everywhere P (.mk layer)

theorem everywhere_of_forall {P : NodeOf Node → Prop} (h : ∀ layer, P layer) (n : Node) :
    n.Everywhere P := by
  induction n using Node.induction with
  | step n ih =>
    obtain ⟨layer⟩ := n
    exact .mk (h layer) ih

theorem Everywhere.of_below {P : NodeOf Node → Prop} {n m : Node} (h : Everywhere P n)
    (mem : m ∈ n.layer.below) : Everywhere P m := by
  cases h with
  | mk _ below => exact below m mem

theorem Everywhere.mono {P Q : NodeOf Node → Prop} (weaker : ∀ layer, P layer → Q layer) {n : Node}
    (h : n.Everywhere P) : n.Everywhere Q := by
  induction h with
  | mk here _ ih => exact .mk (weaker _ here) ih

theorem Everywhere.walk {P : NodeOf Node → Prop} {n : Node} (h : Everywhere P n) :
    ∀ m ∈ n.walk, Everywhere P m :=
  forall_mem_walk (fun n h _ mem => h.of_below (n.layer.inside_subset_below mem)) h

end Node

end Pagesmith
