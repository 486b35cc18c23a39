import Pagesmith.Page.Sheet

/-!
The nodes directly below a node, in whatever property they stand, and induction over them.
-/

namespace Pagesmith

namespace PropOf

variable {ν μ : Type}

mutual

/-- The nodes that a property value carries, wherever they stand in it. -/
def nodes : PropOf ν → List ν
  | node n => [n]
  | many items => nodesOfAll items
  | _ => []

/-- The nodes that property values carry. -/
def nodesOfAll : List (PropOf ν) → List ν
  | [] => []
  | p :: r => nodes p ++ nodesOfAll r

end

theorem mem_nodesOfAll {items : List (PropOf ν)} {n : ν} :
    n ∈ nodesOfAll items ↔ ∃ p ∈ items, n ∈ p.nodes := by
  induction items with
  | nil => simp [nodesOfAll]
  | cons p r ih => simp [nodesOfAll, ih]

mutual

theorem nodes_map (f : ν → μ) (p : PropOf ν) : (p.map f).nodes = p.nodes.map f := by
  match p with
  | .node n => rfl
  | .many items =>
    simp only [map, nodes]
    exact nodesOfAll_map f items
  | .literal _ | .reference _ | .expression _ | .function _ | .action _ | .raw _ => rfl

theorem nodesOfAll_map (f : ν → μ) (items : List (PropOf ν)) :
    nodesOfAll (mapAll f items) = (nodesOfAll items).map f := by
  match items with
  | [] => rfl
  | p :: r => simp only [mapAll, nodesOfAll, List.map_append, nodes_map f p, nodesOfAll_map f r]

end

theorem mapAll_eq (f : ν → μ) (items : List (PropOf ν)) : mapAll f items = items.map (map f) := by
  induction items with
  | nil => rfl
  | cons p r ih => rw [mapAll, ih, List.map_cons]

theorem slotNodes_subset (p : PropOf ν) : p.slotNodes ⊆ p.nodes := by
  intro n mem
  match p with
  | .node _ => exact mem
  | .many items =>
    rw [slotNodes] at mem
    split at mem
    · obtain ⟨q, found, slot⟩ := List.mem_filterMap.1 mem
      refine mem_nodesOfAll.2 ⟨q, found, ?_⟩
      cases q <;> simp_all [node?, nodes]
    · cases mem
  | .literal _ | .reference _ | .expression _ | .function _ | .action _ | .raw _ => cases mem

theorem slotNodes_actionList {items : List (PropOf ν)}
    (h : (PropOf.many items).isActionList = true) : (PropOf.many items).slotNodes = [] := by
  simp only [isActionList, Bool.and_eq_true, List.all_eq_true] at h
  obtain ⟨given, actions⟩ := h
  cases items with
  | nil => contradiction
  | cons p r =>
    have action := actions p (by simp)
    rw [slotNodes]
    cases p with
    | action a => rfl
    | _ => cases action

theorem slotNodes_other {items : List (PropOf ν)}
    (h : (PropOf.many items).isSlotList = false) : (PropOf.many items).slotNodes = [] := by
  rw [slotNodes]
  rw [isSlotList, Bool.and_eq_false_iff] at h
  split
  · next all =>
    obtain none | other := h
    · cases items with
      | nil => rfl
      | cons p r => cases none
    · rw [all] at other
      cases other
  · rfl

section Map

variable (f : ν → μ)

theorem action?_map (p : PropOf ν) : (p.map f).action? = p.action? := by
  cases p <;> rfl

theorem node?_map (p : PropOf ν) : (p.map f).node? = p.node?.map f := by
  cases p <;> rfl

theorem isBlankLiteral_map (p : PropOf ν) : (p.map f).isBlankLiteral = p.isBlankLiteral := by
  cases p <;> rfl

theorem isActionList_map (p : PropOf ν) : (p.map f).isActionList = p.isActionList := by
  cases p with
  | many items =>
    simp only [map, isActionList, mapAll_eq, List.isEmpty_map, List.all_map]
    simp only [Function.comp_def, action?_map]
  | _ => rfl

theorem isSlotList_map (p : PropOf ν) : (p.map f).isSlotList = p.isSlotList := by
  cases p with
  | many items =>
    simp only [map, isSlotList, mapAll_eq, List.isEmpty_map, List.all_map]
    simp only [Function.comp_def, node?_map, Option.isSome_map]
  | _ => rfl

theorem actions_map (p : PropOf ν) : (p.map f).actions = p.actions := by
  cases p with
  | many items =>
    simp only [map, actions, mapAll_eq, List.all_map, List.filterMap_map]
    simp only [Function.comp_def, action?_map]
  | _ => rfl

theorem actions_many (as : List Action) : (many (as.map action) : PropOf ν).actions = as := by
  simp [actions, action?, List.filterMap_map, Function.comp_def]

theorem actions_nodes (ns : List ν) : (many (ns.map node)).actions = [] := by
  cases ns with
  | nil => rfl
  | cons n r => rfl

theorem slotNodes_map (p : PropOf ν) : (p.map f).slotNodes = p.slotNodes.map f := by
  cases p with
  | many items =>
    simp only [map, slotNodes, mapAll_eq, List.all_map, List.filterMap_map]
    simp only [Function.comp_def, node?_map, Option.isSome_map]
    split
    · rw [List.map_filterMap]
    · rfl
  | _ => rfl

end Map

section Size

mutual

theorem sizeOf_nodes (p : PropOf Node) : ∀ n ∈ p.nodes, sizeOf n < sizeOf p := by
  match p with
  | .node n => simp [nodes]
  | .many items =>
    intro n mem
    have inner := sizeOf_nodesOfAll items n mem
    rw [many.sizeOf_spec]
    omega
  | .literal _ | .reference _ | .expression _ | .function _ | .action _ | .raw _ => simp [nodes]

theorem sizeOf_nodesOfAll (items : List (PropOf Node)) :
    ∀ n ∈ nodesOfAll items, sizeOf n < sizeOf items := by
  match items with
  | [] => simp [nodesOfAll]
  | p :: r =>
    intro n mem
    rw [List.cons.sizeOf_spec]
    obtain mem | mem := List.mem_append.1 mem
    · have := sizeOf_nodes p n mem
      omega
    · have := sizeOf_nodesOfAll r n mem
      omega

end

end Size

end PropOf

namespace NodeOf

variable {ν μ : Type}

/-- The nodes directly below a node. -/
def below (layer : NodeOf ν) : List ν :=
  (layer.props.flatMap fun e => e.2.nodes) ++ layer.children.getD []

theorem below_map (f : ν → μ) (layer : NodeOf ν) : (layer.map f).below = layer.below.map f := by
  have props : ((layer.props.map fun e => (e.1, e.2.map f)).flatMap fun e => e.2.nodes) =
      (layer.props.flatMap fun e => e.2.nodes).map f := by
    rw [List.flatMap_map, List.map_flatMap]
    simp only [PropOf.nodes_map]
  have children : (layer.children.map (·.map f)).getD [] = (layer.children.getD []).map f := by
    cases layer.children <;> rfl
  simp only [below, map, List.map_append, props, children]

end NodeOf

namespace Node

variable {P : Node → Prop}

mutual

/-- What passes from the nodes below a node to the node holds of every node. -/
theorem induction (step : ∀ n, (∀ n' ∈ n.layer.below, P n') → P n) (n : Node) : P n := by
  match n with
  | .mk ⟨_, _, _, props, _, children, _, _⟩ =>
    refine step _ fun n' mem => ?_
    simp only [layer, NodeOf.below, List.mem_append] at mem
    obtain mem | mem := mem
    · exact induction_props step props n' mem
    · match children with
      | none => cases mem
      | some ns => exact induction_all step ns n' mem

theorem induction_all (step : ∀ n, (∀ n' ∈ n.layer.below, P n') → P n) (ns : List Node) :
    ∀ n ∈ ns, P n := by
  match ns with
  | [] => simp
  | n :: r =>
    simp only [List.forall_mem_cons]
    exact ⟨induction step n, induction_all step r⟩

theorem induction_props (step : ∀ n, (∀ n' ∈ n.layer.below, P n') → P n)
    (props : List (String × PropOf Node)) : ∀ n ∈ props.flatMap fun e => e.2.nodes, P n := by
  match props with
  | [] => simp
  | (k, p) :: r =>
    simp only [List.flatMap_cons, List.mem_append]
    rintro n (mem | mem)
    · exact induction_prop step p n mem
    · exact induction_props step r n mem

theorem induction_prop (step : ∀ n, (∀ n' ∈ n.layer.below, P n') → P n) (p : PropOf Node) :
    ∀ n ∈ p.nodes, P n := by
  match p with
  | .node n =>
    simp only [PropOf.nodes, List.mem_singleton, forall_eq]
    exact induction step n
  | .many items => exact induction_items step items
  | .literal _ | .reference _ | .expression _ | .function _ | .action _ | .raw _ =>
    simp [PropOf.nodes]

theorem induction_items (step : ∀ n, (∀ n' ∈ n.layer.below, P n') → P n)
    (items : List (PropOf Node)) : ∀ n ∈ PropOf.nodesOfAll items, P n := by
  match items with
  | [] => simp [PropOf.nodesOfAll]
  | p :: r =>
    simp only [PropOf.nodesOfAll, List.mem_append]
    rintro n (mem | mem)
    · exact induction_prop step p n mem
    · exact induction_items step r n mem

end

theorem sizeOf_below {n m : Node} (h : m ∈ n.layer.below) : sizeOf m < sizeOf n := by
  obtain ⟨id, component, dependency, props, schemaName, children, styles, cssClass⟩ := n
  rw [Node.mk.sizeOf_spec, NodeOf.mk.sizeOf_spec]
  obtain mem | mem := List.mem_append.1 h
  · obtain ⟨⟨key, p⟩, there, carried⟩ := List.mem_flatMap.1 mem
    have inner := p.sizeOf_nodes m carried
    have listed : sizeOf (key, p) < sizeOf props := List.sizeOf_lt_of_mem there
    rw [Prod.mk.sizeOf_spec] at listed
    omega
  · cases children with
    | none => cases mem
    | some ns =>
      have listed : sizeOf m < sizeOf ns := List.sizeOf_lt_of_mem mem
      rw [Option.some.sizeOf_spec]
      omega

end Node

end Pagesmith
