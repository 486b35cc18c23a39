import Pagesmith.Proofs.Page.Walk
import Mathlib.Data.List.Forall2

/-!
Sheets and trees. The sheet of a tree grows into the nodes of the tree in the order of the walk. Two
sheets that are alike entry by entry grow into trees that are alike node by node, as far as walks of
the second tree go.
-/

namespace Pagesmith

namespace PropOf

variable {ν μ : Type}

mutual

/-- Replacing nodes and taking the replacement back changes nothing. -/
theorem map_cancel {f : ν → μ} {g : μ → ν} (back : ∀ n, g (f n) = n) (p : PropOf ν) :
    (p.map f).map g = p := by
  match p with
  | .node n => simp only [map, back]
  | .many items => simp only [map, mapAll_cancel back items]
  | .literal _ | .reference _ | .expression _ | .function _ | .action _ | .raw _ => rfl

theorem mapAll_cancel {f : ν → μ} {g : μ → ν} (back : ∀ n, g (f n) = n) (items : List (PropOf ν)) :
    mapAll g (mapAll f items) = items := by
  match items with
  | [] => rfl
  | p :: r => simp only [mapAll, map_cancel back p, mapAll_cancel back r]

end

mutual

theorem map_congr {f g : ν → μ} (p : PropOf ν) (same : ∀ n ∈ p.nodes, f n = g n) :
    p.map f = p.map g := by
  match p with
  | .node n => exact congrArg node (same n (List.mem_singleton.2 rfl))
  | .many items => exact congrArg many (mapAll_congr items same)
  | .literal _ | .reference _ | .expression _ | .function _ | .action _ | .raw _ => rfl

theorem mapAll_congr {f g : ν → μ} (items : List (PropOf ν))
    (same : ∀ n ∈ nodesOfAll items, f n = g n) : mapAll f items = mapAll g items := by
  match items with
  | [] => rfl
  | p :: r =>
    simp only [nodesOfAll, List.mem_append] at same
    simp only [mapAll, map_congr p fun n mem => same n (.inl mem),
      mapAll_congr r fun n mem => same n (.inr mem)]

end

end PropOf

theorem NodeOf.map_congr {ν μ : Type} {f g : ν → μ} {layer : NodeOf ν} (same : ∀ n ∈ layer.below, f n = g n) :
    layer.map f = layer.map g := by
  have props : (layer.props.map fun e => (e.1, e.2.map f)) = layer.props.map fun e => (e.1, e.2.map g) :=
    List.map_congr_left fun e mem => congrArg (Prod.mk e.1) (e.2.map_congr fun n inside =>
      same n (List.mem_append_left _ (List.mem_flatMap.2 ⟨e, mem, inside⟩)))
  have children : layer.children.map (·.map f) = layer.children.map (·.map g) := by
    refine Option.map_congr fun ns given => List.map_congr_left fun n mem => same n (List.mem_append_right _ ?_)
    rwa [given]
  simp only [NodeOf.map, props, children]

namespace Sheet

mutual

theorem length_ofNode (start : Nat) (n : Node) : (ofNode start n).length = n.walk.length := by
  match n with
  | .mk ⟨_, _, _, props, _, none, _, _⟩ =>
    simp only [ofNode, Node.walk, List.nil_append, List.length_cons, length_ofProps _ props]
  | .mk ⟨_, _, _, props, _, some cs, _, _⟩ =>
    simp only [ofNode, Node.walk, List.length_cons, List.length_append, length_ofProps _ props,
      length_ofNodes _ cs]

theorem length_ofNodes (start : Nat) (ns : List Node) :
    (ofNodes start ns).2.length = (Node.walkAll ns).length := by
  match ns with
  | [] => rfl
  | n :: r =>
    simp only [ofNodes, Node.walkAll, List.length_append, length_ofNode _ n, length_ofNodes _ r]

theorem length_ofProps (start : Nat) (ps : List (String × PropOf Node)) :
    (ofProps start ps).2.length = (Node.walkProps ps).length := by
  match ps with
  | [] => rfl
  | (_, p) :: r =>
    simp only [ofProps, Node.walkProps, List.length_append, length_ofProp _ p, length_ofProps _ r]

theorem length_ofProp (start : Nat) (p : PropOf Node) :
    (ofProp start p).2.length = (Node.walkProp p).length := by
  match p with
  | .node n => exact length_ofNode start n
  | .many items =>
    rw [ofProp, Node.walkProp]
    split
    · exact length_ofItems start items
    · rfl
  | .literal _ | .reference _ | .expression _ | .function _ | .action _ | .raw _ => rfl

theorem length_ofItems (start : Nat) (items : List (PropOf Node)) :
    (ofItems start items).2.length = (Node.walkItems items).length := by
  match items with
  | [] => rfl
  | .node n :: r =>
    simp only [ofItems, Node.walkItems, List.length_append, length_ofNode _ n, length_ofItems _ r]
  | .many _ :: r | .literal _ :: r | .reference _ :: r | .expression _ :: r | .function _ :: r
  | .action _ :: r | .raw _ :: r => exact length_ofItems start r

end

section Resolve

variable {index k : Nat} {later : List Node}

theorem resolve_at (n : Node) (h : n.walk <+: later.drop k) :
    resolve index later (.at (index + 1 + k)) = n := by
  obtain ⟨more, found⟩ := h
  have place : index + 1 + k - index - 1 = k := by omega
  have here : later[k]? = some n := by
    rw [← List.head?_drop, ← found, n.walk_eq]
    rfl
  simp [resolve, place, here]

/-- The nodes behind the first tree of several. -/
theorem prefix_behind {n : Node} {start : Nat} {r : List Node} (h : n.walk ++ r <+: later.drop k) :
    r <+: later.drop (k + (ofNode start n).length) := by
  obtain ⟨more, found⟩ := h
  rw [length_ofNode, ← List.drop_drop, ← found, List.append_assoc, List.drop_left]
  exact List.prefix_append r more

theorem resolve_ofNodes (ns : List Node) (h : Node.walkAll ns <+: later.drop k) :
    (ofNodes (index + 1 + k) ns).1.map (resolve index later) = ns := by
  induction ns generalizing k with
  | nil => rfl
  | cons n r ih =>
    simp only [ofNodes, List.map_cons]
    rw [resolve_at n ((List.prefix_append _ _).trans h), Nat.add_assoc, ih (prefix_behind h)]

theorem resolve_ofItems (items : List (PropOf Node)) (slots : items.all Node.isSlotItem = true)
    (h : Node.walkItems items <+: later.drop k) :
    PropOf.mapAll (resolve index later) (ofItems (index + 1 + k) items).1 = items := by
  induction items generalizing k with
  | nil => rfl
  | cons p r ih =>
    rw [List.all_cons, Bool.and_eq_true] at slots
    cases p with
    | node n =>
      simp only [ofItems, PropOf.mapAll, PropOf.map]
      rw [resolve_at n ((List.prefix_append _ _).trans h), Nat.add_assoc, ih slots.2 (prefix_behind h)]
    | _ => cases slots.1

theorem resolve_ofProp (p : PropOf Node) (h : Node.walkProp p <+: later.drop k) :
    (ofProp (index + 1 + k) p).1.map (resolve index later) = p := by
  cases p with
  | node n => exact congrArg PropOf.node (resolve_at n h)
  | many items =>
    rw [Node.walkProp] at h
    rw [ofProp]
    split
    · next slots =>
      rw [if_pos slots] at h
      exact congrArg PropOf.many (resolve_ofItems items slots h)
    · exact congrArg PropOf.many (PropOf.mapAll_cancel (fun _ => rfl) items)
  | _ => rfl

theorem resolve_ofProps (ps : List (String × PropOf Node)) (h : Node.walkProps ps <+: later.drop k) :
    ((ofProps (index + 1 + k) ps).1.map fun e => (e.1, e.2.map (resolve index later))) = ps := by
  induction ps generalizing k with
  | nil => rfl
  | cons e r ih =>
    obtain ⟨key, p⟩ := e
    have rest : Node.walkProps r <+: later.drop (k + (ofProp (index + 1 + k) p).2.length) := by
      obtain ⟨more, found⟩ := h
      rw [Node.walkProps, List.append_assoc] at found
      rw [length_ofProp, ← List.drop_drop, ← found, List.drop_left]
      exact List.prefix_append _ more
    simp only [ofProps, List.map_cons]
    rw [resolve_ofProp p ((List.prefix_append _ _).trans h), Nat.add_assoc, ih rest]

end Resolve

mutual

/-- The sheet of a tree grows into the nodes of the tree. -/
theorem grow_ofNode (start : Nat) (n : Node) (post : Sheet) :
    grow start (ofNode start n ++ post) =
      n.walk ++ grow (start + (ofNode start n).length) post := by
  match n with
  | .mk ⟨_, _, _, props, _, none, _, _⟩ =>
    have slots := grow_ofProps (start + 1) props post
    have resolved := @resolve_ofProps start 0 _ props (List.prefix_append (Node.walkProps props)
      (grow (start + 1 + (ofProps (start + 1) props).2.length) post))
    simp only [Nat.add_zero] at resolved
    simp only [ofNode, List.nil_append, List.length_nil, List.cons_append, grow, Node.walk,
      List.length_cons, Nat.add_zero, slots, NodeOf.map, resolved, Option.map_none]
    congr 3
    omega
  | .mk ⟨_, _, _, props, _, some cs, _, _⟩ =>
    have slots := grow_ofProps (start + 1 + (ofNodes (start + 1) cs).2.length) props post
    have children := grow_ofNodes (start + 1) cs
      ((ofProps (start + 1 + (ofNodes (start + 1) cs).2.length) props).2 ++ post)
    rw [slots] at children
    have resolved (rest : List Node) : (ofNodes (start + 1) cs).1.map
        (resolve start (Node.walkAll cs ++ (Node.walkProps props ++ rest))) = cs :=
      @resolve_ofNodes start 0 _ cs (List.prefix_append _ _)
    have resolved' (rest : List Node) :
        ((ofProps (start + 1 + (ofNodes (start + 1) cs).2.length) props).1.map fun e =>
          (e.1, e.2.map (resolve start (Node.walkAll cs ++ (Node.walkProps props ++ rest))))) =
          props := by
      refine resolve_ofProps props ?_
      rw [length_ofNodes, List.drop_left]
      exact List.prefix_append _ rest
    simp only [ofNode, List.cons_append, List.append_assoc, grow, Node.walk, List.length_cons,
      List.length_append, children, NodeOf.map, Option.map_some, resolved, resolved']
    congr 4
    omega

theorem grow_ofNodes (start : Nat) (ns : List Node) (post : Sheet) :
    grow start ((ofNodes start ns).2 ++ post) =
      Node.walkAll ns ++ grow (start + (ofNodes start ns).2.length) post := by
  match ns with
  | [] => rfl
  | n :: r =>
    simp only [ofNodes, Node.walkAll, List.append_assoc, List.length_append]
    rw [grow_ofNode start n, grow_ofNodes _ r, Nat.add_assoc]

theorem grow_ofProps (start : Nat) (ps : List (String × PropOf Node)) (post : Sheet) :
    grow start ((ofProps start ps).2 ++ post) =
      Node.walkProps ps ++ grow (start + (ofProps start ps).2.length) post := by
  match ps with
  | [] => rfl
  | (_, p) :: r =>
    simp only [ofProps, Node.walkProps, List.append_assoc, List.length_append]
    rw [grow_ofProp start p, grow_ofProps _ r, Nat.add_assoc]

theorem grow_ofProp (start : Nat) (p : PropOf Node) (post : Sheet) :
    grow start ((ofProp start p).2 ++ post) =
      Node.walkProp p ++ grow (start + (ofProp start p).2.length) post := by
  match p with
  | .node n => exact grow_ofNode start n post
  | .many items =>
    rw [ofProp, Node.walkProp]
    split
    · next slots => exact grow_ofItems start items slots post
    · rfl
  | .literal _ | .reference _ | .expression _ | .function _ | .action _ | .raw _ => rfl

theorem grow_ofItems (start : Nat) (items : List (PropOf Node))
    (slots : items.all Node.isSlotItem = true) (post : Sheet) :
    grow start ((ofItems start items).2 ++ post) =
      Node.walkItems items ++ grow (start + (ofItems start items).2.length) post := by
  match items with
  | [] => rfl
  | .node n :: r =>
    rw [List.all_cons, Bool.and_eq_true] at slots
    simp only [ofItems, Node.walkItems, List.append_assoc, List.length_append]
    rw [grow_ofNode start n, grow_ofItems _ r slots.2, Nat.add_assoc]
  | .many _ :: r | .literal _ :: r | .reference _ :: r | .expression _ :: r | .function _ :: r
  | .action _ :: r | .raw _ :: r => cases slots

end

theorem length_grow (index : Nat) (s : Sheet) : (grow index s).length = s.length := by
  induction s generalizing index with
  | nil => rfl
  | cons l r ih => rw [grow, List.length_cons, ih, List.length_cons]

/-- What stands for references in the trees of a sheet leaves other trees as they are. -/
def Resolves (ρ : Ref → Node) : Prop := ∀ n, ρ (.kept n) = n

theorem resolves_resolve (index : Nat) (later : List Node) : Resolves (resolve index later) :=
  fun _ => rfl

theorem exists_mem_grow {s : Sheet} {l : NodeOf Ref} (h : l ∈ s) (index : Nat) :
    ∃ ρ, Resolves ρ ∧ Node.mk (l.map ρ) ∈ grow index s := by
  induction s generalizing index with
  | nil => cases h
  | cons l' r ih =>
    obtain rfl | h := List.mem_cons.1 h
    · exact ⟨_, resolves_resolve _ _, List.mem_cons_self⟩
    · obtain ⟨ρ, resolves, mem⟩ := ih h (index + 1)
      exact ⟨ρ, resolves, List.mem_cons_of_mem _ mem⟩

theorem grow_sheet (n : Node) : grow 0 (ofNode 0 n) = n.walk := by
  simpa [grow] using grow_ofNode 0 n []

/-- Every entry of the sheet of a tree is a node of the walk, with references in it. -/
theorem mem_ofNode {n : Node} {l : NodeOf Ref} (h : l ∈ ofNode 0 n) :
    ∃ ρ, Resolves ρ ∧ Node.mk (l.map ρ) ∈ n.walk := by
  rw [← grow_sheet]
  exact exists_mem_grow h 0

/-- A property without slots has no numbers in it. -/
def Fixed (e : String × PropOf Ref) : Prop :=
  e.2.slotNodes = [] → ∀ r ∈ e.2.nodes, ∃ n, r = .kept n

/-- Every entry names entries behind it as the nodes right inside, and no entries elsewhere. -/
def Leads : Nat → Sheet → Prop
  | _, [] => True
  | index, l :: r =>
    (∀ ref ∈ l.inside, ∃ k < r.length, ref = .at (index + 1 + k)) ∧
      (∀ e ∈ l.props, Fixed e) ∧ Leads (index + 1) r

theorem ofItems_node (start : Nat) (items : List (PropOf Node)) :
    ∀ p ∈ (ofItems start items).1, ∃ r, p = .node r := by
  induction items generalizing start with
  | nil => exact fun p mem => nomatch mem
  | cons p r ih =>
    cases p with
    | node n =>
      simp only [ofItems, List.forall_mem_cons]
      exact ⟨⟨_, rfl⟩, ih _⟩
    | _ => exact ih start

theorem nodes_ofItems (start : Nat) (items : List (PropOf Node)) :
    PropOf.nodesOfAll (ofItems start items).1 ⊆ (PropOf.many (ofItems start items).1).slotNodes := by
  have node := ofItems_node start items
  generalize (ofItems start items).1 = found at node
  have all : (found.all fun p => p.node?.isSome) = true := by
    refine List.all_eq_true.2 fun p mem => ?_
    obtain ⟨r, rfl⟩ := node p mem
    rfl
  intro r mem
  obtain ⟨p, there, inside⟩ := PropOf.mem_nodesOfAll.1 mem
  rw [PropOf.slotNodes, if_pos all, List.mem_filterMap]
  obtain ⟨r', rfl⟩ := node p there
  obtain rfl := List.mem_singleton.1 inside
  exact ⟨_, there, rfl⟩

theorem fixed_ofProp (start : Nat) (key : String) (p : PropOf Node) :
    Fixed (key, (ofProp start p).1) := by
  intro none r mem
  cases p with
  | node n => cases none
  | many items =>
    simp only [ofProp] at none mem
    split at none
    · next slots =>
      rw [if_pos slots] at mem
      have slot := nodes_ofItems start items mem
      rw [none] at slot
      cases slot
    · next mixed =>
      rw [if_neg mixed] at mem
      change r ∈ PropOf.nodesOfAll (PropOf.mapAll Ref.kept items) at mem
      rw [PropOf.nodesOfAll_map] at mem
      obtain ⟨n, -, rfl⟩ := List.mem_map.1 mem
      exact ⟨n, rfl⟩
  | _ => cases mem

theorem fixed_ofProps (start : Nat) (ps : List (String × PropOf Node)) :
    ∀ e ∈ (ofProps start ps).1, Fixed e := by
  induction ps generalizing start with
  | nil => exact fun e mem => nomatch mem
  | cons e r ih =>
    obtain ⟨key, p⟩ := e
    simp only [ofProps, List.forall_mem_cons]
    exact ⟨fixed_ofProp start key p, ih _⟩

section Leads

variable {start k : Nat} {r : Ref}

/-- The reference is to one of `count` entries from `start` on. -/
def IsWithin (start count : Nat) (r : Ref) : Prop := ∃ k < count, r = .at (start + k)

theorem IsWithin.first {count : Nat} (h : IsWithin start count r) (more : Nat) :
    IsWithin start (count + more) r := by
  obtain ⟨k, bound, rfl⟩ := h
  exact ⟨k, by omega, rfl⟩

theorem IsWithin.behind {count before : Nat} (h : IsWithin (start + before) count r) :
    IsWithin start (before + count) r := by
  obtain ⟨k, bound, rfl⟩ := h
  exact ⟨before + k, by omega, by rw [Nat.add_assoc]⟩

theorem isWithin_start (n : Node) : IsWithin start (ofNode start n).length (.at start) := by
  refine ⟨0, ?_, rfl⟩
  rw [length_ofNode, n.walk_eq]
  simp

theorem isWithin_ofNodes (ns : List Node) :
    ∀ r ∈ (ofNodes start ns).1, IsWithin start (ofNodes start ns).2.length r := by
  induction ns generalizing start with
  | nil => simp [ofNodes]
  | cons n rest ih =>
    simp only [ofNodes, List.forall_mem_cons, List.length_append]
    exact ⟨(isWithin_start n).first _, fun r mem => (ih r mem).behind⟩

theorem isWithin_ofItems (items : List (PropOf Node)) :
    ∀ r ∈ (ofItems start items).1.filterMap PropOf.node?,
      IsWithin start (ofItems start items).2.length r := by
  induction items generalizing start with
  | nil => simp [ofItems]
  | cons p rest ih =>
    cases p with
    | node n =>
      simp only [ofItems, List.filterMap_cons, PropOf.node?, List.forall_mem_cons,
        List.length_append]
      exact ⟨(isWithin_start n).first _, fun r mem => (ih r mem).behind⟩
    | _ => exact ih

theorem isWithin_ofProp (p : PropOf Node) :
    ∀ r ∈ (ofProp start p).1.slotNodes, IsWithin start (ofProp start p).2.length r := by
  cases p with
  | node n =>
    simp only [ofProp, PropOf.slotNodes, List.mem_singleton, forall_eq]
    exact isWithin_start n
  | many items =>
    rw [ofProp]
    split
    · intro r mem
      rw [PropOf.slotNodes] at mem
      split at mem
      · exact isWithin_ofItems items r mem
      · cases mem
    · next mixed =>
      have none : (PropOf.many items).slotNodes = [] := by
        rw [PropOf.slotNodes, if_neg]
        simpa only [← Node.isSlotItem_eq] using mixed
      have image := PropOf.slotNodes_map Ref.kept (PropOf.many items)
      rw [none] at image
      simp only [PropOf.map] at image
      simp [image]
  | _ => simp [ofProp, PropOf.slotNodes]

theorem isWithin_ofProps (ps : List (String × PropOf Node)) :
    ∀ r ∈ (ofProps start ps).1.flatMap fun e => e.2.slotNodes,
      IsWithin start (ofProps start ps).2.length r := by
  induction ps generalizing start with
  | nil => simp [ofProps]
  | cons e rest ih =>
    obtain ⟨key, p⟩ := e
    simp only [ofProps, List.flatMap_cons, List.mem_append, List.length_append]
    rintro r (mem | mem)
    · exact (isWithin_ofProp p r mem).first _
    · exact (ih r mem).behind

end Leads

mutual

theorem leads_ofNode (start : Nat) (n : Node) {post : Sheet}
    (h : Leads (start + (ofNode start n).length) post) : Leads start (ofNode start n ++ post) := by
  match n with
  | .mk ⟨_, _, _, props, _, none, _, _⟩ =>
    simp only [ofNode, List.nil_append, List.length_nil, Nat.add_zero, List.cons_append,
      List.length_cons, Leads, NodeOf.inside, Option.getD_none, List.length_append] at h ⊢
    refine ⟨fun r mem => (isWithin_ofProps props r mem).first post.length,
      fixed_ofProps _ props, leads_ofProps (start + 1) props ?_⟩
    rwa [Nat.add_assoc, Nat.add_comm 1]
  | .mk ⟨_, _, _, props, _, some cs, _, _⟩ =>
    simp only [ofNode, List.cons_append, List.append_assoc, List.length_cons, Leads,
      NodeOf.inside, Option.getD_some, List.length_append, List.mem_append] at h ⊢
    refine ⟨?_, fixed_ofProps _ props, leads_ofNodes (start + 1) cs (leads_ofProps _ props ?_)⟩
    · rintro r (mem | mem)
      · exact (isWithin_ofNodes cs r mem).first _
      · exact ((isWithin_ofProps props r mem).first post.length).behind
    · convert h using 1
      omega

theorem leads_ofNodes (start : Nat) (ns : List Node) {post : Sheet}
    (h : Leads (start + (ofNodes start ns).2.length) post) :
    Leads start ((ofNodes start ns).2 ++ post) := by
  match ns with
  | [] => exact h
  | n :: r =>
    simp only [ofNodes, List.append_assoc, List.length_append] at h ⊢
    rw [← Nat.add_assoc] at h
    exact leads_ofNode start n (leads_ofNodes _ r h)

theorem leads_ofProps (start : Nat) (ps : List (String × PropOf Node)) {post : Sheet}
    (h : Leads (start + (ofProps start ps).2.length) post) :
    Leads start ((ofProps start ps).2 ++ post) := by
  match ps with
  | [] => exact h
  | (_, p) :: r =>
    simp only [ofProps, List.append_assoc, List.length_append] at h ⊢
    rw [← Nat.add_assoc] at h
    exact leads_ofProp start p (leads_ofProps _ r h)

theorem leads_ofProp (start : Nat) (p : PropOf Node) {post : Sheet}
    (h : Leads (start + (ofProp start p).2.length) post) :
    Leads start ((ofProp start p).2 ++ post) := by
  match p with
  | .node n => exact leads_ofNode start n h
  | .many items =>
    rw [ofProp] at h ⊢
    split at h
    · next slots =>
      rw [if_pos slots]
      exact leads_ofItems start items h
    · next mixed =>
      rw [if_neg mixed]
      exact h
  | .literal _ | .reference _ | .expression _ | .function _ | .action _ | .raw _ => exact h

theorem leads_ofItems (start : Nat) (items : List (PropOf Node)) {post : Sheet}
    (h : Leads (start + (ofItems start items).2.length) post) :
    Leads start ((ofItems start items).2 ++ post) := by
  match items with
  | [] => exact h
  | .node n :: r =>
    simp only [ofItems, List.append_assoc, List.length_append] at h ⊢
    rw [← Nat.add_assoc] at h
    exact leads_ofNode start n (leads_ofItems _ r h)
  | .many _ :: r | .literal _ :: r | .reference _ :: r | .expression _ :: r | .function _ :: r
  | .action _ :: r | .raw _ :: r => exact leads_ofItems start r h

end

theorem leads_sheet (n : Node) : Leads 0 (ofNode 0 n) := by
  simpa using @leads_ofNode 0 n [] trivial

/-- The trees come from entries in this relation, and so do the trees right inside the second one
with those at the same places in the first one. A property without slots stands for the same. -/
inductive Alike (T : NodeOf Ref → NodeOf Ref → Prop) : Node → Node → Prop
  | mk {l l' : NodeOf Ref} {ρ ρ' : Ref → Node} (entries : T l l')
    (fixed : ∀ e ∈ l.props, e.2.slotNodes = [] → e.2.map ρ' = e.2.map ρ)
    (inside : ∀ r ∈ l'.inside, Alike T (ρ r) (ρ' r)) : Alike T (.mk (l.map ρ)) (.mk (l'.map ρ'))

/-- Sheets that are alike entry by entry grow into trees that are alike. -/
theorem alike_grow {T : NodeOf Ref → NodeOf Ref → Prop}
    (narrow : ∀ l l', T l l' → l'.inside ⊆ l.inside) {index : Nat} {s s' : Sheet}
    (leads : Leads index s) (h : List.Forall₂ T s s') :
    List.Forall₂ (Alike T) (grow index s) (grow index s') := by
  induction h generalizing index with
  | nil => exact .nil
  | @cons l l' r r' entries rest ih =>
    obtain ⟨first, fixed, leads⟩ := leads
    have later := ih leads
    refine .cons (.mk entries (fun e mem none => e.2.map_congr fun ref mem' => ?_)
      fun ref mem => ?_) later
    · obtain ⟨n, rfl⟩ := fixed e mem none ref mem'
      rfl
    obtain ⟨k, bound, rfl⟩ := first ref (narrow l l' entries mem)
    have place : index + 1 + k - index - 1 = k := by omega
    have bound' : k < (grow (index + 1) r).length := by rwa [length_grow]
    have bound'' : k < (grow (index + 1) r').length := by rwa [length_grow, ← rest.length_eq]
    simp only [resolve, place, List.getElem?_eq_getElem bound', List.getElem?_eq_getElem bound'',
      Option.getD_some]
    exact later.get bound' bound''

/-- The last of those that pass a test, found by its number. -/
theorem getLast?_numbered {α : Type} (test : α → Bool) (xs : List α) :
    ((((xs.zipIdx.filter fun e => test e.1).getLast?).map (·.2)).bind fun i => xs[i]?) =
      (xs.filter test).getLast? := by
  have entries : xs.filter test = (xs.zipIdx.filter fun e => test e.1).map (·.1) := by
    conv_lhs => rw [← List.zipIdx_map_fst 0 xs, List.filter_map]
    rfl
  rw [entries, List.getLast?_map]
  cases last : (xs.zipIdx.filter fun e => test e.1).getLast? with
  | none => rfl
  | some e =>
    have mem := (List.mem_filter.1 (List.mem_of_getLast? last)).1
    exact List.mem_zipIdx_iff_getElem?.1 mem

theorem lastIndex?_entry (id : String) (s : Sheet) :
    ((s.lastIndex? id).bind fun i => s[i]?) = (s.filter (·.id == id)).getLast? :=
  getLast?_numbered (fun l : NodeOf Ref => l.id == id) s

/-- An identifier has a number on the sheet if it is there at all. -/
theorem lastIndex?_isSome {s : Sheet} {id : String} : (s.lastIndex? id).isSome = true ↔ id ∈ s.map (·.id) := by
  rw [lastIndex?, Option.isSome_map, List.getLast?_isSome]
  constructor
  · intro given
    obtain ⟨e, mem⟩ := List.exists_mem_of_ne_nil _ given
    obtain ⟨there, same⟩ := List.mem_filter.1 mem
    exact List.mem_map.2 ⟨e.1, List.fst_mem_of_mem_zipIdx there, eq_of_beq same⟩
  · intro mem none
    obtain ⟨l, there, rfl⟩ := List.mem_map.1 mem
    obtain ⟨i, found⟩ := List.mem_iff_getElem?.1 there
    have given := List.filter_eq_nil_iff.1 none (l, i) (List.mem_zipIdx_iff_getElem?.2 found)
    simp at given

/-- In a row of nodes with the identifiers of a sheet the number of the last entry with an identifier
is that of the last node with it. -/
theorem lastIndex?_row {s : Sheet} {ns : List Node} (same : ns.map (·.layer.id) = s.map (·.id))
    (id : String) :
    ((s.lastIndex? id).bind fun i => ns[i]?) = (ns.filter fun n => n.layer.id == id).getLast? := by
  have number {α : Type} (f : α → String) (xs : List α) :
      ((xs.zipIdx.filter fun e => f e.1 == id).getLast?).map (·.2) =
        (((xs.map f).zipIdx.filter fun e => e.1 == id).getLast?).map (·.2) := by
    rw [List.zipIdx_map, List.filter_map, List.getLast?_map, Option.map_map]
    rfl
  rw [lastIndex?, number, ← same, ← number (fun n : Node => n.layer.id)]
  exact getLast?_numbered (fun n : Node => n.layer.id == id) ns

theorem map_grow {α : Type} (f : NodeOf Node → α) (g : NodeOf Ref → α)
    (same : ∀ l ρ, f (l.map ρ) = g l) (index : Nat) (s : Sheet) :
    (grow index s).map (fun n => f n.layer) = s.map g := by
  induction s generalizing index with
  | nil => rfl
  | cons l r ih =>
    rw [grow, List.map_cons, List.map_cons, ih, Node.layer, same]

theorem ids_grow (index : Nat) (s : Sheet) : (grow index s).map (·.layer.id) = s.map (·.id) :=
  map_grow (·.id) (·.id) (fun _ _ => rfl) index s

/-- The node with an identifier, looked up in the sheet of a tree and in the tree. -/
theorem find?_sheet (root : Node) (id : String) :
    (root.find? id).map (fun n => (n.layer.id, n.layer.schemaName)) =
      (((ofNode 0 root).lastIndex? id).bind fun i => (ofNode 0 root)[i]?).map
        fun l => (l.id, l.schemaName) := by
  have same := map_grow (fun l => (l.id, l.schemaName)) (fun l => (l.id, l.schemaName))
    (fun _ _ => rfl) 0 (ofNode 0 root)
  have filtered := congrArg (fun es => (es.filter fun e => e.1 == id).getLast?) same
  simp only [List.filter_map, List.getLast?_map, grow_sheet] at filtered
  rw [lastIndex?_entry, Node.find?]
  exact filtered

/-- What holds of the layers over the entries of a sheet, and everywhere in the trees that are no
part of it, holds everywhere in the trees it grows into. -/
theorem everywhere_grow {P : NodeOf Node → Prop} (blank : Node.blank.Everywhere P) {s : Sheet}
    (entries : ∀ l ∈ s, ∀ ρ, P (l.map ρ))
    (kept : ∀ l ∈ s, ∀ n, .kept n ∈ l.below → n.Everywhere P) (index : Nat) :
    ∀ n ∈ grow index s, n.Everywhere P := by
  induction s generalizing index with
  | nil => simp [grow]
  | cons l r ih =>
    simp only [List.forall_mem_cons] at entries kept
    have later := ih entries.2 kept.2 (index + 1)
    rw [grow, List.forall_mem_cons]
    refine ⟨.mk (entries.1 _) ?_, later⟩
    rw [NodeOf.below_map]
    intro n mem
    obtain ⟨ref, found, rfl⟩ := List.mem_map.1 mem
    cases ref with
    | kept n => exact kept.1 n found
    | «at» i =>
      rw [resolve]
      cases entry : (grow (index + 1) r)[i - index - 1]? with
      | none => exact blank
      | some n => exact later n (List.mem_of_getElem? entry)

end Sheet

end Pagesmith
