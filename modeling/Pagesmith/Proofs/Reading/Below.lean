import Pagesmith.Proofs.Page.Reference
import Pagesmith.Proofs.Reading.Layer

/-!
What reading puts below a node. Every node in it was read from one that is inside the node of the schema,
and every property stands for one of its properties or is a literal of the rules; so what each layer has
for itself, the whole tree has.
-/

namespace Pagesmith.Reading

variable {R : List String → EditorNode → Node → Prop} {path : List String}

/-- Where a property comes from that the rules have arranged: it was read, and stands under its name or
as the children, or it is one of the literals of the rules. -/
theorem Arranged.entry {read props : List (String × PropOf Node)} (h : Arranged read props)
    {e : String × PropOf Node} (mem : e ∈ props) : (e.1 ∈ ruleKeys ∧ ∃ v, e.2 = .literal v) ∨
      ∃ r ∈ read, e.2 = r.2 ∧ (e.1 = r.1 ∨ e.1 = "children") := by
  induction h generalizing e with
  | same => exact .inr ⟨e, mem, rfl, .inl rfl⟩
  | fewer _ left ih => exact ih (left.mem mem)
  | moved _ found ih =>
    obtain mem | mem := List.mem_append.1 mem
    · exact ih (List.mem_of_mem_filter mem)
    · obtain rfl := List.mem_singleton.1 mem
      obtain ⟨-, v, literal⟩ | ⟨r, there, same, -⟩ := ih (Table.mem_of_lookup found)
      · exact .inl ⟨(by decide : "children" ∈ ruleKeys), v, literal⟩
      · exact .inr ⟨r, there, same, .inr rfl⟩
  | put _ known v ih =>
    obtain rfl | mem := Table.eq_or_mem_of_mem_insert mem
    · exact .inl ⟨known, v, rfl⟩
    · exact ih mem

theorem NodesOf.mem {index : Nat} {ns : List EditorNode} {ms : List Node}
    (h : NodesOf R path index ns ms) {m : Node} (mem : m ∈ ms) : ∃ path', ∃ n ∈ ns, R path' n m := by
  induction h with
  | nil => cases mem
  | @cons _ n _ _ _ first _ ih =>
    obtain rfl | mem := List.mem_cons.1 mem
    · exact ⟨_, n, List.mem_cons_self, first⟩
    · obtain ⟨path', n', there, holds⟩ := ih mem
      exact ⟨path', n', List.mem_cons_of_mem n there, holds⟩

theorem ValueOf.mem {p : EditorProp} {v : PropOf Node} (h : ValueOf R path p v) {m : Node}
    (mem : m ∈ v.nodes) : ∃ path', ∃ n ∈ p.nodes, R path' n m := by
  cases h with
  | literal | expression | function | action => cases mem
  | actions as =>
    change m ∈ PropOf.nodesOfAll _ at mem
    rw [(PropOf.carried_actions as).2] at mem
    cases mem
  | node inner =>
    obtain rfl := List.mem_singleton.1 mem
    exact ⟨_, _, List.mem_singleton_self _, inner⟩
  | @nodes _ _ ms inner =>
    change m ∈ PropOf.nodesOfAll _ at mem
    rw [(PropOf.carried_nodes ms).2] at mem
    exact inner.mem mem

theorem forall₂_mem_right {α β : Type} {S : α → β → Prop} {as : List α} {bs : List β} (h : List.Forall₂ S as bs)
    {b : β} (mem : b ∈ bs) : ∃ a ∈ as, S a b := by
  induction h with
  | nil => cases mem
  | @cons a _ _ _ first _ ih =>
    obtain rfl | mem := List.mem_cons.1 mem
    · exact ⟨a, List.mem_cons_self, first⟩
    · obtain ⟨a', there, holds⟩ := ih mem
      exact ⟨a', List.mem_cons_of_mem a there, holds⟩

theorem PagesOf.mem {index : Nat} {ns : List EditorNode} {ps : List Page} (h : PagesOf R index ns ps)
    {p : Page} (mem : p ∈ ps) : ∃ path', ∃ n ∈ ns, R path' n p.root := by
  induction h with
  | nil => cases mem
  | @cons _ n _ _ _ tree _ _ ih =>
    obtain rfl | mem := List.mem_cons.1 mem
    · exact ⟨_, n, List.mem_cons_self, tree⟩
    · obtain ⟨path', n', there, holds⟩ := ih mem
      exact ⟨path', n', List.mem_cons_of_mem n there, holds⟩

namespace LayerOf

variable {c : Catalogue} {n : EditorNode} {layer : NodeOf Node} (h : LayerOf c R path n layer)
include h

theorem entry {e : String × PropOf Node} (mem : e ∈ layer.props) :
    (e.1 ∈ ruleKeys ∧ ∃ v, e.2 = .literal v) ∨
      ∃ g ∈ n.props, (e.1 = g.1 ∨ e.1 = "children") ∧ ValueOf R (path ++ [g.1]) g.2 e.2 := by
  obtain ⟨given, read, left, entries, arranged⟩ := h.props
  obtain literal | ⟨r, there, same, key⟩ := arranged.entry mem
  · exact .inl literal
  · obtain ⟨g, listed, entry⟩ := forall₂_mem_right entries there
    rw [same]
    exact .inr ⟨g, left.mem listed, by rwa [← entry.key], entry.value⟩

/-- Every node below was read from one inside the node of the schema. -/
theorem below {m : Node} (mem : m ∈ layer.below) : ∃ path', ∃ n' ∈ n.inside, R path' n' m := by
  obtain mem | mem := List.mem_append.1 mem
  · obtain ⟨e, there, carried⟩ := List.mem_flatMap.1 mem
    obtain ⟨-, v, literal⟩ | ⟨g, given, -, value⟩ := h.entry there
    · rw [literal] at carried
      cases carried
    · obtain ⟨path', n', inside, holds⟩ := value.mem carried
      exact ⟨path', n', List.mem_append_left _ (List.mem_flatMap.2 ⟨g, given, inside⟩), holds⟩
  · obtain ⟨path', n', inside, holds⟩ := h.children.mem mem
    exact ⟨path', n', List.mem_append_right _ inside, holds⟩

end LayerOf

variable {c : Catalogue} {P : EditorNode → Prop} {Q : NodeOf Node → Prop}

/-- What the layers of a tree have if the nodes of the schema have something, the pages of the schema have
everywhere. -/
theorem project_everywhere (usual : c.ReadsAsDefault)
    (layers : ∀ R path n layer, LayerOf c R path n layer → P n → Q layer) {schema : Value} {ns : List EditorNode}
    (read : Schema.read schema = .ok ns) (given : ∀ n ∈ pageRoots ns, n.Everywhere P) :
    (project c schema).Yields fun p => ∀ q ∈ p.pages, q.root.Everywhere Q := by
  let R : List String → EditorNode → Node → Prop := fun _ n m => n.Everywhere P → m.Everywhere Q
  have step (path : List String) (n : EditorNode) (layer : NodeOf Node) (h : LayerOf c R path n layer) :
      R path n (.mk layer) := by
    intro given
    refine .mk (layers R path n layer h given.here) fun m mem => ?_
    obtain ⟨path', n', inside, holds⟩ := h.below mem
    exact holds (given.inside n' inside)
  intro log p ok q mem
  have outcome := project_of usual step schema log
  rw [read, ok] at outcome
  obtain ⟨path, n, there, holds⟩ := outcome.mem mem
  exact holds (given n there)

end Pagesmith.Reading
