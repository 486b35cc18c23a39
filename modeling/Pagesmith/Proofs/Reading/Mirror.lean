import Mathlib
import Pagesmith.Proofs.Reading.Layer
import Pagesmith.Proofs.Value.Json

/-!
Reading keeps the shape of a schema. Every node of the schema becomes one node of the page, with its
name, an identifier of its own and a node for each of its children, whichever rule builds it.
-/

namespace Pagesmith.Reading

mutual

/-- A node of a page stands for a node of the schema at this place: it has its name, the identifier
that is given or else one made from the place, and children that stand for its children. -/
inductive Mirrors : (path : List String) → EditorNode → Node → Prop
  | node {path : List String} {id : Value} {name : String} {props : List (String × EditorProp)}
      {children : Option (List EditorNode)} {styles : Option (List (String × Value))}
      {extra : List (String × Value)} {layer : NodeOf Node}
      (sameName : layer.schemaName = name)
      (given : id.isNull = false → id.text ≠ "" → layer.id = id.text)
      (placed : id.isNull = true ∨ id.text = "" →
        layer.id = "node_" ++ String.intercalate "_" path)
      (below : MirrorsAll path 0 (children.getD []) (layer.children.getD [])) :
      Mirrors path (.mk id name props children styles extra) (.mk layer)

/-- Nodes of a page stand for nodes of the schema, one for each, counted from `index` on. -/
inductive MirrorsAll : (path : List String) → (index : Nat) → List EditorNode → List Node → Prop
  | nil {path : List String} {index : Nat} : MirrorsAll path index [] []
  | cons {path : List String} {index : Nat} {n : EditorNode} {m : Node} {ns : List EditorNode}
      {ms : List Node} (first : Mirrors (path ++ [toString index]) n m)
      (rest : MirrorsAll path (index + 1) ns ms) : MirrorsAll path index (n :: ns) (m :: ms)

end

variable {c : Catalogue}

theorem mirrorsAll_of {path : List String} {index : Nat} {ns : List EditorNode} {ms : List Node}
    (h : NodesOf Mirrors path index ns ms) : MirrorsAll path index ns ms := by
  induction h with
  | nil => exact .nil
  | cons first _ ih => exact .cons first ih

theorem LayerOf.mirrors {path : List String} {n : EditorNode} {layer : NodeOf Node}
    (h : LayerOf c Mirrors path n layer) : Mirrors path n (.mk layer) := by
  obtain ⟨id, name, props, children, styles, extra⟩ := n
  have ident := nodeId_eq h.id
  refine .node h.name ?_ ?_ (mirrorsAll_of h.children)
  · intro given text
    rw [ident]
    exact if_neg (by simp [EditorNode.id, given, text])
  · intro missing
    rw [ident]
    exact if_pos (by simpa [EditorNode.id] using missing)

/-- The pages stand for these top-level nodes, one for each, counted from `index` on: a page's tree
stands for its node, and the page has the identifier of its tree. -/
structure PagesMirror (index : Nat) (ns : List EditorNode) (ps : List Page) : Prop where
  count : ps.length = ns.length
  trees : ∀ i n p, ns[i]? = some n → ps[i]? = some p → Mirrors [toString (index + i)] n p.root
  ids : ∀ p ∈ ps, p.id = p.root.layer.id

/-- What is read from a schema: the fault of its shape, or one that its page nodes bring in, or a page for each of its
page nodes. -/
theorem project_mirrors (usual : c.ReadsAsDefault) (schema : Value) (log : List Notice) :
    match Schema.read schema with
    | .error f => (project c schema log).1 = .error f
    | .ok ns => Job.Meets (faultsOf (pageRoots ns)) (fun p => PagesMirror 0 (pageRoots ns) p.pages)
      (project c schema log).1 := by
  have outcome := project_of usual (fun _ _ _ => LayerOf.mirrors) schema log
  cases read : Schema.read schema with
  | error f =>
    rw [read] at outcome
    exact outcome
  | ok ns =>
    rw [read] at outcome
    exact outcome.mono (fun p of => ⟨of.length_eq, fun _ _ _ => of.at, of.ids⟩) (Set.Subset.refl _)

section Faults

end Faults

end Pagesmith.Reading
