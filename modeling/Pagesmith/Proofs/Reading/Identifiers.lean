import Pagesmith.Proofs.Page.Walk
import Pagesmith.Proofs.Reading.Layer
import Pagesmith.Proofs.Reading.Ways
import Mathlib.Data.List.Flatten
import Mathlib.Data.List.Perm.Subperm

/-!
The identifiers that are made for nodes without one. Each spells the way by which its node is reached from
the top of the page, and every node is reached by a way of its own, whatever the rules make of the
properties. So two nodes have the same identifier only if two ways are spelled alike.
-/

namespace Pagesmith
namespace Reading

/-- The identifiers are what different ways with this property are spelled as. -/
def SpelledBy (path : List String) (P : List Branch → Prop) (ids : List String) : Prop :=
  ∃ ways : List (List Branch),
    ways.Nodup ∧ (∀ way ∈ ways, P way) ∧ ids.Perm (ways.map (Branch.spelled path))

namespace SpelledBy

variable {path : List String} {P Q : List Branch → Prop} {ids ids' : List String}

theorem nil : SpelledBy path P [] := ⟨[], .nil, by simp, .refl _⟩

theorem mono (h : SpelledBy path P ids) (weaker : ∀ way, P way → Q way) : SpelledBy path Q ids := by
  obtain ⟨ways, distinct, all, spelled⟩ := h
  exact ⟨ways, distinct, fun way mem => weaker way (all way mem), spelled⟩

theorem append (h : SpelledBy path P ids) (h' : SpelledBy path Q ids')
    (apart : ∀ way, P way → ¬ Q way) : SpelledBy path (fun way => P way ∨ Q way) (ids ++ ids') := by
  obtain ⟨ways, distinct, all, spelled⟩ := h
  obtain ⟨ways', distinct', all', spelled'⟩ := h'
  refine ⟨ways ++ ways', List.nodup_append.2 ⟨distinct, distinct', ?_⟩, ?_, ?_⟩
  · rintro way mem way' mem' rfl
    exact apart way (all way mem) (all' way mem')
  · intro way mem
    exact (List.mem_append.1 mem).imp (all way) (all' way)
  · rw [List.map_append]
    exact spelled.append spelled'

/-- What is spelled behind a step is spelled from before it, with the step in front. -/
theorem under {b : Branch} (h : SpelledBy (path ++ b.segments) P ids) :
    SpelledBy path (fun way => ∃ rest, way = b :: rest ∧ P rest) ids := by
  obtain ⟨ways, distinct, all, spelled⟩ := h
  refine ⟨ways.map (b :: ·), distinct.map (List.cons_injective), ?_, ?_⟩
  · intro way mem
    obtain ⟨rest, there, rfl⟩ := List.mem_map.1 mem
    exact ⟨rest, rfl, all rest there⟩
  · rw [List.map_map]
    exact spelled.trans (.of_eq (List.map_congr_left fun way _ => (Branch.spelled_cons path b way).symm))

theorem of_subperm (h : SpelledBy path P ids) (fewer : ids'.Subperm ids) : SpelledBy path P ids' := by
  obtain ⟨ways, distinct, all, spelled⟩ := h
  obtain ⟨some, same, left⟩ := fewer.trans spelled.subperm
  obtain ⟨ways', part, rfl⟩ := List.sublist_map_iff.1 left
  exact ⟨ways', part.nodup distinct, fun way mem => all way (part.subset mem), same.symm⟩

end SpelledBy

section Slots

variable {R : List String → EditorNode → Node → Prop} {path : List String}

/-- The nodes that a property carries are read as the nodes in its slot, if it becomes one. -/
theorem ValueOf.slots {p : EditorProp} {v : PropOf Node} (h : ValueOf R path p v) :
    v.slotNodes = [] ∨ NodesOf R path 0 p.nodes v.slotNodes := by
  cases h with
  | literal | expression | function | action => exact .inl rfl
  | actions as =>
    refine .inl ?_
    cases as <;> rfl
  | node inner => exact .inr (.cons inner .nil)
  | @nodes v ns ms inner =>
    have slots : (PropOf.many (ms.map .node)).slotNodes = ms := by
      simp [PropOf.slotNodes, PropOf.node?, Function.comp_def]
    rw [slots]
    exact .inr inner

theorem slots_insert (key : String) (v : Value) (props : List (String × PropOf Node)) :
    ((Table.insert key (.literal v) props).flatMap fun e => e.2.slotNodes).Sublist
      (props.flatMap fun e => e.2.slotNodes) := by
  induction props with
  | nil => exact .refl _
  | cons e r ih =>
    rw [Table.insert]
    split
    · exact List.sublist_append_right _ _
    · exact ih.append_left _

/-- The rules may drop slots and put them in another order, but none is put twice. -/
theorem Arranged.slots {read props : List (String × PropOf Node)} (h : Arranged read props) :
    (props.flatMap fun e => e.2.slotNodes).Subperm (read.flatMap fun e => e.2.slotNodes) := by
  induction h with
  | same => exact .refl _
  | fewer _ left ih => exact (left.flatMap _).subperm.trans ih
  | put _ _ v ih => exact (slots_insert _ v _).subperm.trans ih
  | @moved props _ key p found ih =>
    refine .trans ?_ ih
    obtain ⟨before, after, rfl, -⟩ := List.lookup_eq_some_iff.1 found
    have rest : (Table.erase key (before ++ (key, p) :: after)).Sublist (before ++ after) := by
      rw [Table.erase, List.filter_append, List.filter_cons_of_neg (by simp)]
      exact List.filter_sublist.append List.filter_sublist
    have left := (rest.append_right [("children", p)]).flatMap fun e => e.2.slotNodes
    refine left.subperm.trans (List.Perm.subperm ?_)
    simp only [List.flatMap_append, List.flatMap_cons, List.flatMap_nil, List.append_nil,
      List.append_assoc]
    exact List.perm_append_comm.append_left _

end Slots

/-- The schema has no identifier for the node, and each property of it once. -/
structure Derived (n : EditorNode) : Prop where
  unnamed : n.id.isNull = true ∨ n.id.text = ""
  keyed : (n.props.map (·.1)).Nodup

/-- If nothing in the tree has an identifier, the nodes of what it is read as have identifiers that spell
different ways. -/
def Told (path : List String) (n : EditorNode) (m : Node) : Prop :=
  n.Everywhere Derived →
    SpelledBy path (fun way => (n.at? way).isSome) (m.walk.map (·.layer.id))

section Told

variable {path : List String}

/-- The identifiers below nodes that stand in a row spell ways that start with the step to one of them. -/
theorem NodesOf.told {start : List String} {branch : Nat → Branch}
    (counts : ∀ i j, branch i = branch j → i = j)
    (spells : ∀ i, start ++ [toString i] = path ++ (branch i).segments) {index : Nat}
    {ns : List EditorNode} {ms : List Node} (h : NodesOf Told start index ns ms)
    (derived : ∀ n ∈ ns, n.Everywhere Derived) :
    SpelledBy path (fun way => ∃ i n rest, ns[i]? = some n ∧ way = branch (index + i) :: rest ∧
      (n.at? rest).isSome) ((ms.flatMap Node.walk).map (·.layer.id)) := by
  induction h with
  | nil => exact .nil
  | @cons index n m ns ms first _ ih =>
    obtain ⟨here, others⟩ := List.forall_mem_cons.1 derived
    have head := first here
    rw [spells] at head
    rw [List.flatMap_cons, List.map_append]
    refine (head.under.append (ih others) ?_).mono ?_
    · rintro way ⟨rest, rfl, -⟩ ⟨i, n', rest', -, same, -⟩
      have number := counts _ _ (List.cons.inj same).1
      omega
    · rintro way (⟨rest, rfl, there⟩ | ⟨i, n', rest, found, rfl, there⟩)
      · exact ⟨0, n, rest, rfl, rfl, there⟩
      · exact ⟨i + 1, n', rest, found, by rw [Nat.add_right_comm, Nat.add_assoc], there⟩

theorem entries_told {given : List (String × EditorProp)} {read : List (String × PropOf Node)}
    (h : List.Forall₂ (EntryOf Told path) given read) (once : (given.map (·.1)).Nodup)
    (derived : ∀ e ∈ given, ∀ n ∈ e.2.nodes, n.Everywhere Derived) :
    SpelledBy path (fun way => ∃ e ∈ given, ∃ i n rest, e.2.nodes[i]? = some n ∧
        way = .slot e.1 i :: rest ∧ (n.at? rest).isSome)
      (((read.flatMap fun e => e.2.slotNodes).flatMap Node.walk).map (·.layer.id)) := by
  induction h with
  | nil => exact .nil
  | @cons e v given read entry _ ih =>
    obtain ⟨new, once⟩ := List.nodup_cons.1 once
    obtain ⟨here, others⟩ := List.forall_mem_cons.1 derived
    have first : SpelledBy path (fun way => ∃ i n rest, e.2.nodes[i]? = some n ∧
        way = .slot e.1 i :: rest ∧ (n.at? rest).isSome)
        ((v.2.slotNodes.flatMap Node.walk).map (·.layer.id)) := by
      obtain none | slots := entry.value.slots
      · rw [none]
        exact .nil
      · have spells (i : Nat) : path ++ [e.1] ++ [toString i] =
            path ++ (Branch.slot e.1 i).segments := by simp [Branch.segments]
        have counts (i j : Nat) (same : Branch.slot e.1 i = Branch.slot e.1 j) : i = j := by
          injection same
        simpa only [Nat.zero_add] using slots.told counts spells here
    rw [List.flatMap_cons, List.flatMap_append, List.map_append]
    refine (first.append (ih once others) ?_).mono ?_
    · rintro way ⟨i, n, rest, -, rfl, -⟩ ⟨e', mem, i', n', rest', -, same, -⟩
      have keys : e.1 = e'.1 := by
        injection (List.cons.inj same).1
      exact new (List.mem_map.2 ⟨e', mem, keys.symm⟩)
    · rintro way (⟨i, n, rest, found⟩ | ⟨e', mem, found⟩)
      · exact ⟨e, List.mem_cons_self, i, n, rest, found⟩
      · exact ⟨e', List.mem_cons_of_mem _ mem, found⟩

/-- The identifiers of a node and of what is inside it, from those of the nodes inside. -/
theorem LayerOf.told {c : Catalogue} {n : EditorNode} {layer : NodeOf Node}
    (h : LayerOf c Told path n layer) : Told path n (.mk layer) := by
  intro derived
  obtain ⟨given, read, left, entries, arranged⟩ := h.props
  have ident : layer.id = Branch.spelled path [] := by
    have missing : (n.id.isNull || n.id.text == "") = true := by
      simpa using derived.here.unnamed
    rw [nodeId_eq h.id, if_pos missing, placeId, Branch.spelled, List.flatMap_nil, List.append_nil]
  have keyed : (n.props.map (·.1)).Nodup := derived.here.keyed
  have counts : ∀ i j, Branch.child i = Branch.child j → i = j := fun i j same => by injection same
  have children := NodesOf.told counts (fun i => rfl) h.children fun n' mem =>
    derived.inside n' (List.mem_append_right _ mem)
  have slots := entries_told entries ((left.map _).nodup keyed) fun e mem n' carried =>
    derived.inside n' (List.mem_append_left _ (List.mem_flatMap.2 ⟨e, left.subset mem, carried⟩))
  have fewer : (((layer.props.flatMap fun e => e.2.slotNodes).flatMap Node.walk).map
      (·.layer.id)).Subperm
      (((read.flatMap fun e => e.2.slotNodes).flatMap Node.walk).map (·.layer.id)) := by
    obtain ⟨some, same, left⟩ := arranged.slots
    exact ⟨(some.flatMap Node.walk).map (·.layer.id), (same.flatMap_right _).map _,
      (left.flatMap _).map _⟩
  have below := children.append (slots.of_subperm fewer) (by
    rintro way ⟨i, n', rest, -, rfl, -⟩ ⟨e, -, i', n'', rest', -, same, -⟩
    cases same)
  have here : SpelledBy path (fun way => way = []) [layer.id] :=
    ⟨[[]], by simp, by simp, by simp [ident]⟩
  have walk : ((Node.mk layer).walk.map (·.layer.id)) = [layer.id] ++
      (((layer.children.getD []).flatMap Node.walk).map (·.layer.id) ++
        ((layer.props.flatMap fun e => e.2.slotNodes).flatMap Node.walk).map (·.layer.id)) := by
    rw [Node.walk_eq, NodeOf.inside, List.map_cons, Node.layer, List.flatMap_append,
      List.map_append]
    rfl
  rw [walk]
  refine (here.append below ?_).mono ?_
  · rintro way rfl (⟨i, n', rest, -, same, -⟩ | ⟨e, -, i, n', rest, -, same, -⟩) <;> cases same
  · rintro way (rfl | ⟨i, n', rest, found, rfl, there⟩ | ⟨e, mem, i, n', rest, found, rfl, there⟩)
    · rfl
    · refine EditorNode.at?_cons.2 ⟨n', ?_, there⟩
      rw [Nat.zero_add]
      exact found
    · refine EditorNode.at?_cons.2 ⟨n', ?_, there⟩
      rw [EditorNode.next?, Table.lookup_of_mem keyed (left.subset mem)]
      exact found

end Told

/-- If a schema has no identifiers, the nodes of a page have identifiers that spell different ways, and so
they differ exactly if no two of the ways are spelled alike. That is so if the slots of all nodes are
clear. Only a slot that carries itself and a number too long for a text can keep the schema from being read. -/
theorem default_ids_apart_iff {schema : Value} {ns : List EditorNode}
    (read : Schema.read schema = .ok ns)
    (derived : ∀ n ∈ pageRoots ns, n.Everywhere Derived) (log : List Notice) :
    Job.Meets (faultsOf (pageRoots ns)) (fun made => made.pages.length = (pageRoots ns).length ∧
      ∀ (i : Nat) (n : EditorNode) (p : Page), (pageRoots ns)[i]? = some n →
        made.pages[i]? = some p →
        (∃ ways : List (List Branch), ways.Nodup ∧ (∀ way ∈ ways, (n.at? way).isSome) ∧
          (p.root.walk.map (·.layer.id)).Perm (ways.map (Branch.spelled [toString i])) ∧
          (p.root.DistinctIds ↔ ∀ way ∈ ways, ∀ way' ∈ ways,
            Branch.spelled [toString i] way = Branch.spelled [toString i] way' → way = way')) ∧
        (n.Everywhere EditorNode.Clear → p.root.DistinctIds)) (project .default schema log).1 := by
  have outcome := project_of Catalogue.default_readsAsDefault (fun _ _ _ => LayerOf.told) schema log
  rw [read] at outcome
  refine outcome.mono (fun made of => ⟨of.length_eq, fun i n p root page => ?_⟩) (Set.Subset.refl _)
  have told := of.at root page
  rw [Nat.zero_add] at told
  obtain ⟨ways, distinct, there, spelled⟩ := told (derived n (List.mem_of_getElem? root))
  have apart : p.root.DistinctIds ↔ ∀ way ∈ ways, ∀ way' ∈ ways,
      Branch.spelled [toString i] way = Branch.spelled [toString i] way' → way = way' := by
    rw [Node.DistinctIds, spelled.nodup_iff, List.nodup_map_iff_inj_on distinct]
  refine ⟨⟨ways, distinct, there, spelled, apart⟩, fun clear => apart.2 ?_⟩
  intro way mem way' mem' same
  exact clear.way_eq (there way mem) (there way' mem') (spelledPieces_of_spelled same)

/-- A slot with this content. -/
def slotValue (content : Value) : Value := .dict [("type", .str "JSSlot"), ("value", content)]

/-- A node of the schema with this name only. -/
def bareNode (name : String) : EditorNode := .mk .null name [] none none []

/-- A node of the schema with this name and one child. -/
def aroundNode (name : String) (child : EditorNode) : EditorNode :=
  .mk .null name [] (some [child]) none []

/-- A page whose second slot has a name that goes on behind the name of the first. -/
def crossedSlots : Value :=
  let container := .dict [("name", .str "Container"),
    ("children", .list [.dict [("name", .str "Card")]])]
  .list [.dict [("name", .str "Page"), ("props", .dict [("extra", slotValue container),
    ("extra_0", slotValue (.dict [("name", .str "Input")]))])]]

theorem bareNode_derived (name : String) : (bareNode name).Everywhere Derived :=
  .mk ⟨.inl rfl, .nil⟩ fun _ mem => nomatch mem

theorem aroundNode_derived (name : String) {child : EditorNode} (h : child.Everywhere Derived) :
    (aroundNode name child).Everywhere Derived := by
  refine .mk ⟨.inl rfl, .nil⟩ fun n mem => ?_
  obtain rfl := List.mem_singleton.1 mem
  exact h

theorem crossedSlots_ids : (project .default crossedSlots []).1.map (fun made =>
    made.pages.map fun p => p.root.walk.map (·.layer.id)) = .ok
      [["node_0", "node_0_extra_0", "node_0_extra_0_0", "node_0_extra_0_0"]] := by
  rfl

/-- The card in the container and the input of the other slot have the same identifier. -/
theorem crossedSlots_share_id : ∃ page made p,
    Schema.read crossedSlots = .ok [page] ∧ page.Everywhere Derived ∧
    (project .default crossedSlots []).1 = .ok made ∧ made.pages = [p] ∧
    p.root.walk.map (·.layer.id) =
      ["node_0", "node_0_extra_0", "node_0_extra_0_0", "node_0_extra_0_0"] ∧
    ¬ p.root.DistinctIds ∧ ¬ page.Everywhere EditorNode.Clear := by
  obtain ⟨page, read, roots, inside, keyed, unnamed⟩ : ∃ page,
      Schema.read crossedSlots = .ok [page] ∧ pageRoots [page] = [page] ∧
      page.inside = [aroundNode "Container" (bareNode "Card"), bareNode "Input"] ∧
      page.props.map (·.1) = ["extra", "extra_0"] ∧ page.id = .null :=
    ⟨_, rfl, rfl, rfl, rfl, rfl⟩
  have derived : page.Everywhere Derived := by
    refine .mk ⟨.inl (by rw [unnamed]; rfl), ?_⟩ ?_
    · rw [keyed]
      decide
    · rw [inside]
      simp only [List.forall_mem_cons]
      exact ⟨aroundNode_derived _ (bareNode_derived _), bareNode_derived _, by simp⟩
  have outcome := default_ids_apart_iff read (by simpa [roots] using derived) []
  obtain ⟨made, ok⟩ : ∃ made, (project .default crossedSlots []).1 = .ok made := ⟨_, rfl⟩
  rw [ok, roots] at outcome
  obtain ⟨count, pages⟩ := outcome
  obtain ⟨p, one⟩ := List.length_eq_one_iff.1 count
  obtain ⟨-, clear⟩ := pages 0 page p rfl (by rw [one]; rfl)
  have ids := crossedSlots_ids
  rw [ok] at ids
  have ids : made.pages.map (fun p => p.root.walk.map (·.layer.id)) =
      [["node_0", "node_0_extra_0", "node_0_extra_0_0", "node_0_extra_0_0"]] := Except.ok.inj ids
  rw [one] at ids
  have ids : p.root.walk.map (·.layer.id) =
      ["node_0", "node_0_extra_0", "node_0_extra_0_0", "node_0_extra_0_0"] := (List.cons.inj ids).1
  have shared : ¬ p.root.DistinctIds := by
    rw [Node.DistinctIds, ids]
    decide
  exact ⟨page, made, p, read, derived, ok, one, ids, shared, mt clear shared⟩

end Reading

end Pagesmith
