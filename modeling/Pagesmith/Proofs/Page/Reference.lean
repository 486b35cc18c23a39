import Pagesmith.Proofs.Page.Walk

/-!
References to states and functions in a page tree. A tree as it is read has none.
-/

namespace Pagesmith

namespace PropOf

variable {ν μ : Type}

mutual

/-- The names that a property value refers to, wherever they stand in it. -/
def references : PropOf ν → List String
  | reference name => [name]
  | many items => referencesOfAll items
  | _ => []

/-- The names that property values refer to. -/
def referencesOfAll : List (PropOf ν) → List String
  | [] => []
  | p :: r => references p ++ referencesOfAll r

end

mutual

theorem references_map (f : ν → μ) (p : PropOf ν) : (p.map f).references = p.references := by
  match p with
  | .many items =>
    simp only [map, references]
    exact referencesOfAll_map f items
  | .literal _ | .reference _ | .expression _ | .function _ | .action _ | .node _ | .raw _ => rfl

theorem referencesOfAll_map (f : ν → μ) (items : List (PropOf ν)) :
    referencesOfAll (mapAll f items) = referencesOfAll items := by
  match items with
  | [] => rfl
  | p :: r => simp only [mapAll, referencesOfAll, references_map f p, referencesOfAll_map f r]

end

/-- Actions carry no references and no nodes. -/
theorem carried_actions (as : List Action) :
    referencesOfAll (as.map .action : List (PropOf ν)) = [] ∧
      nodesOfAll (as.map .action : List (PropOf ν)) = [] := by
  induction as with
  | nil => exact ⟨rfl, rfl⟩
  | cons a r ih =>
    simp only [List.map_cons, referencesOfAll, references, nodesOfAll, nodes, ih.1, ih.2]
    exact ⟨rfl, rfl⟩

/-- A list of nodes carries these and no references. -/
theorem carried_nodes (ns : List ν) :
    referencesOfAll (ns.map .node) = [] ∧ nodesOfAll (ns.map .node) = ns := by
  induction ns with
  | nil => exact ⟨rfl, rfl⟩
  | cons n r ih =>
    simp only [List.map_cons, referencesOfAll, references, nodesOfAll, nodes, ih.1, ih.2]
    exact ⟨rfl, rfl⟩

end PropOf

namespace NodeOf

/-- The names that the properties of a node refer to. -/
def references {ν : Type} (layer : NodeOf ν) : List String :=
  layer.props.flatMap fun e => e.2.references

theorem references_map {ν μ : Type} (f : ν → μ) (layer : NodeOf ν) :
    (layer.map f).references = layer.references := by
  rw [references, references, map, List.flatMap_map]
  simp only [PropOf.references_map]

end NodeOf

/-- The name is that of a state or a function of the page. -/
def Page.Knows (p : Page) (name : String) : Prop :=
  name ∈ p.states.map (·.1) ∨ name ∈ p.methods.map (·.1)

/-- No property refers to a name, anywhere in the tree. -/
def Node.Plain (n : Node) : Prop := n.Everywhere fun layer => layer.references = []

/-- The value refers to no name, nor does any tree in it. -/
structure PropOf.Plain (p : PropOf Node) : Prop where
  references : p.references = []
  nodes : ∀ n ∈ p.nodes, n.Plain

theorem Node.plain_iff {layer : NodeOf Node} : (Node.mk layer).Plain ↔
    (∀ e ∈ layer.props, e.2.Plain) ∧ ∀ n ∈ layer.children.getD [], n.Plain := by
  constructor
  · rintro ⟨here, below⟩
    refine ⟨fun e mem => ⟨List.flatMap_eq_nil_iff.1 here e mem, fun n carried => ?_⟩, ?_⟩
    · exact below n (List.mem_append_left _ (List.mem_flatMap.2 ⟨e, mem, carried⟩))
    · exact fun n mem => below n (List.mem_append_right _ mem)
  · rintro ⟨props, children⟩
    refine .mk (List.flatMap_eq_nil_iff.2 fun e mem => (props e mem).references) fun n mem => ?_
    obtain mem | mem := List.mem_append.1 mem
    · obtain ⟨e, there, carried⟩ := List.mem_flatMap.1 mem
      exact (props e there).nodes n carried
    · exact children n mem

end Pagesmith
