import Pagesmith.Proofs.Reading.Below

/-!
The dependencies of a page are those of its tree: none of them is empty or comes twice, and among them is
one for every node. They are gathered while the tree is read, so what a node needs is judged with a view to
all that have been gathered at the end.
-/

namespace Pagesmith

/-- Dependencies that import from somewhere, no two of them the same export of one source. -/
structure Dependency.Distinct (ds : List Dependency) : Prop where
  sourced : ∀ d ∈ ds, d.source ≠ ""
  apart : (ds.map Dependency.key).Nodup

/-- Among the dependencies is one for the source and the export of this one, if it has a source. -/
def Dependency.IsMet (d : Dependency) (ds : List Dependency) : Prop :=
  d.source ≠ "" → ∃ e ∈ ds, e.key = d.key

theorem Dependency.IsMet.mono {d : Dependency} {ds more : List Dependency} (h : d.IsMet ds)
    (subset : ds ⊆ more) : d.IsMet more := by
  intro some
  obtain ⟨e, mem, same⟩ := h some
  exact ⟨e, subset mem, same⟩

namespace Reading

variable {c : Catalogue}

/-- Requiring a dependency keeps those that there are, and adds it unless there is one like it. -/
theorem require_gathers {found : List Dependency} (distinct : Dependency.Distinct found) (d : Dependency) :
    (require d found).Gives fun r =>
      found ⊆ r.2 ∧ Dependency.Distinct r.2 ∧ d.IsMet r.2 := by
  refine .pure ?_
  dsimp only
  split
  · next known =>
    refine ⟨List.Subset.refl _, distinct, fun some => ?_⟩
    obtain empty | there := Bool.or_eq_true_iff.1 known
    · exact absurd (eq_of_beq empty) some
    · obtain ⟨e, mem, same⟩ := List.any_eq_true.1 there
      exact ⟨e, mem, eq_of_beq same⟩
  · next new =>
    obtain ⟨some, other⟩ : d.source ≠ "" ∧ ∀ e ∈ found, e.key ≠ d.key := by simpa using new
    refine ⟨List.subset_append_left _ _, ⟨?_, ?_⟩, fun _ => ⟨d, by simp, rfl⟩⟩
    · simpa [or_imp, forall_and] using ⟨distinct.sourced, some⟩
    · rw [List.map_append, List.map_singleton]
      refine distinct.apart.append (List.nodup_singleton _) ?_
      simpa using other

/-- What steps yield that keep the dependencies distinct, with a view to those gathered in the end: `last`
has all that is gathered up to a step if it has all that is gathered later. -/
def gathering (excused : Set Fault) (last : List Dependency) : Judgement where
  Holds x P := ∀ found, Dependency.Distinct found →
    (x found).Completes excused fun r => found ⊆ r.2 ∧ Dependency.Distinct r.2 ∧ (r.2 ⊆ last → P r.1)
  Excused := excused
  Given d := d.IsMet last
  none some := absurd rfl some
  pure h found distinct := .pure ⟨List.Subset.refl _, distinct, fun _ => h⟩
  bind first rest found distinct := by
    refine .bind (first found distinct) fun r holds => ?_
    obtain ⟨more, distinct, value⟩ := holds
    refine (rest r.1 r.2 distinct).mono fun r' holds => ?_
    obtain ⟨later, distinct, value'⟩ := holds
    exact ⟨List.Subset.trans more later, distinct,
      fun all => value' all (value (List.Subset.trans later all))⟩
  mono h weaker found distinct := by
    refine (h found distinct).mono fun r holds => ?_
    exact ⟨holds.1, holds.2.1, fun all => weaker _ (holds.2.2 all)⟩
  lift h found distinct :=
    .bind h fun _ holds => .pure ⟨List.Subset.refl _, distinct, fun _ => holds⟩
  require d found distinct := by
    refine (require_gathers distinct d).completes.mono fun r holds => ?_
    exact ⟨holds.1, holds.2.1, fun all => holds.2.2.mono all⟩

/-- What is below a node was read from the nodes inside, so a tree has the dependencies of its layers. -/
theorem LayerOf.meets {last : List Dependency} {path : List String} {n : EditorNode} {layer : NodeOf Node}
    (h : LayerOf c (fun _ _ m => m.Everywhere fun l => l.dependency.IsMet last) path n layer)
    (given : layer.dependency.IsMet last) :
    (Node.mk layer).Everywhere fun l => l.dependency.IsMet last := by
  refine .mk given fun m mem => ?_
  obtain ⟨-, -, -, holds⟩ := h.below mem
  exact holds

/-- A tree is read with dependencies that are distinct and meet those of all its nodes. -/
theorem node_gathers (usual : c.ReadsAsDefault) {excused : Set Fault} {n : EditorNode} (sub : n.faults ⊆ excused)
    (path : List String) : ((node c path n).run []).Completes excused fun r =>
      Dependency.Distinct r.2 ∧ r.1.Everywhere fun l => l.dependency.IsMet r.2 := by
  intro log
  have empty : Dependency.Distinct [] := ⟨by simp, List.nodup_nil⟩
  have all (last : List Dependency) := (gathering excused last).node_induction usual
    (fun _ _ _ holds given => LayerOf.meets holds given) sub path [] empty log
  -- The judgement is taken at the dependencies that this very run ends with.
  cases outcome : ((node c path n).run [] log).1 with
  | error f =>
    have fails := all []
    rw [show (node c path n [] log).1 = .error f from outcome] at fails
    exact fails
  | ok r =>
    have holds := all r.2
    rw [show (node c path n [] log).1 = .ok r from outcome] at holds
    obtain ⟨-, distinct, meets⟩ := holds
    exact ⟨distinct, meets (List.Subset.refl _)⟩

end Reading

/-- The dependencies of a page are distinct, and those of the nodes of its tree are among them. -/
structure Page.Supplied (p : Page) : Prop where
  distinct : Dependency.Distinct p.dependencies
  meets : ∀ n ∈ p.root.walk, n.layer.dependency.IsMet p.dependencies

namespace Reading

variable {c : Catalogue}

theorem pages_supplied (usual : c.ReadsAsDefault) {excused : Set Fault} {ns : List EditorNode}
    (sub : ∀ n ∈ ns, n.faults ⊆ excused) (used : List String) (index : Nat) :
    (pages c used index ns).Completes excused fun ps => ps.length = ns.length ∧ ∀ p ∈ ps, p.Supplied := by
  induction ns generalizing used index with
  | nil => exact .pure ⟨rfl, by simp⟩
  | cons n r ih =>
    obtain ⟨own, others⟩ := List.forall_mem_cons.1 sub
    refine .bind (node_gathers usual own [toString index]) fun found holds => ?_
    obtain ⟨distinct, everywhere⟩ := holds
    refine .bind (ih others _ _) fun rest more => .pure ⟨congrArg Nat.succ more.1, ?_⟩
    refine List.forall_mem_cons.2 ⟨⟨distinct, fun m mem => ?_⟩, more.2⟩
    obtain ⟨here, -⟩ := everywhere.walk m mem
    exact here

/-- Whatever components a catalogue has: if its rules are those of the default one, the dependencies of every page are
distinct and cover the page's tree. -/
theorem project_supplied (usual : c.ReadsAsDefault) (schema : Value) (log : List Notice) :
    match Schema.read schema with
    | .error f => (project c schema log).1 = .error f
    | .ok ns => Job.Meets (faultsOf (pageRoots ns))
      (fun p => p.pages.length = (pageRoots ns).length ∧ ∀ q ∈ p.pages, q.Supplied) (project c schema log).1 := by
  have outcome := project_outcome c schema log
  cases read : Schema.read schema with
  | error f =>
    rw [read] at outcome
    exact outcome
  | ok ns =>
    rw [read] at outcome
    obtain ⟨said, outcome⟩ := outcome
    have excused : ∀ n ∈ pageRoots ns, n.faults ⊆ faultsOf (pageRoots ns) := fun n mem => faults_subset mem
    have found := pages_supplied usual excused [] 0 said
    rw [outcome]
    cases done : (pages c [] 0 (pageRoots ns) said).1 with
    | ok ps =>
      rw [done] at found
      exact found
    | error f =>
      rw [done] at found
      exact found

/-- With any components, any ways to write them, and the rules of the default catalogue, the pages of a schema
have distinct dependencies that cover their trees: each has a source, no two have the same source and export,
and the one of every node that a walk goes to is among them. Only a slot that carries itself and a number too long for
a text, in the nodes of the pages, can keep a schema from being read. -/
theorem dependencies_cover (materials : List (String × Material)) (renderings : List (String × Rendering))
    (schema : Value) (log : List Notice) :
    let c := { Catalogue.default with materials := materials, renderings := renderings }
    match Schema.read schema with
    | .error f => (project c schema log).1 = .error f
    | .ok ns => Job.Meets (faultsOf (pageRoots ns)) (fun p => p.pages.length = (pageRoots ns).length ∧
      ∀ q ∈ p.pages, (q.dependencies.map Dependency.key).Nodup ∧ (∀ d ∈ q.dependencies, d.source ≠ "") ∧
        ∀ n ∈ q.root.walk, n.layer.dependency.source ≠ "" →
          ∃ d ∈ q.dependencies, d.key = n.layer.dependency.key) (project c schema log).1 := by
  intro c
  have usual : c.ReadsAsDefault := ⟨rfl, rfl, rfl⟩
  have outcome := project_supplied usual schema log
  cases read : Schema.read schema with
  | error f =>
    rw [read] at outcome
    exact outcome
  | ok ns =>
    rw [read] at outcome
    refine outcome.mono (fun p supplied => ⟨supplied.1, fun q mem => ?_⟩) (Set.Subset.refl _)
    obtain ⟨⟨sourced, apart⟩, meets⟩ := supplied.2 q mem
    exact ⟨apart, sourced, meets⟩

end Reading

end Pagesmith
