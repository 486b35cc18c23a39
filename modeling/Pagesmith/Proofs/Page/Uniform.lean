import Mathlib.Data.List.Nodup
import Pagesmith.Proofs.Job
import Pagesmith.Proofs.Page.Place
import Pagesmith.Proofs.Table
import Pagesmith.Proofs.Value.Refold

/-!
Trees whose property values are of one kind each, so that no list mixes actions or nodes with other values: there a
walk goes everywhere, and no action escapes. And pages in which no container holds itself and every whole number has a
text where it is written: in literals, in the settings of actions, in first values of states and in what functions
set. Lists are of one kind there, so that none of them is written as a literal.
-/

namespace Pagesmith

namespace PropOf

variable {ν μ : Type}

/-- The value is no list that mixes actions or nodes with other values. -/
def isUniform : PropOf ν → Bool
  | many items => (items.all fun p => p.action?.isSome) || items.all fun p => p.node?.isSome
  | _ => true

theorem isUniform_map (f : ν → μ) (p : PropOf ν) : (p.map f).isUniform = p.isUniform := by
  cases p with
  | many items =>
    simp only [map, isUniform, mapAll_eq, List.all_map]
    simp only [Function.comp_def, action?_map, node?_map, Option.isSome_map]
  | _ => rfl

mutual

/-- The actions that a value carries, wherever they stand in it. -/
def allActions : PropOf ν → List Action
  | action a => [a]
  | many items => allActionsOf items
  | _ => []

/-- The actions that values carry. -/
def allActionsOf : List (PropOf ν) → List Action
  | [] => []
  | p :: r => allActions p ++ allActionsOf r

end

theorem mem_allActionsOf {items : List (PropOf ν)} {a : Action} (h : a ∈ allActionsOf items) :
    ∃ p ∈ items, a ∈ p.allActions := by
  induction items with
  | nil => cases h
  | cons p r ih =>
    obtain mem | mem := List.mem_append.1 h
    · exact ⟨p, List.mem_cons_self, mem⟩
    · obtain ⟨q, there, mem⟩ := ih mem
      exact ⟨q, List.mem_cons_of_mem _ there, mem⟩

variable {p : PropOf ν}

/-- A value of one kind carries actions only as an action or a list of actions. -/
theorem allActions_uniform (uniform : p.isUniform = true) : p.allActions ⊆ p.actions := by
  intro a mem
  match p with
  | .action _ => exact mem
  | .many items =>
    obtain ⟨q, there, inside⟩ := mem_allActionsOf mem
    rw [isUniform, Bool.or_eq_true] at uniform
    obtain actions | nodes := uniform
    · rw [PropOf.actions, if_pos actions]
      have some := List.all_eq_true.1 actions q there
      cases q with
      | action b =>
        obtain rfl := List.mem_singleton.1 inside
        exact List.mem_filterMap.2 ⟨_, there, rfl⟩
      | _ => cases some
    · have some := List.all_eq_true.1 nodes q there
      cases q with
      | node n => cases inside
      | _ => cases some
  | .literal _ | .reference _ | .expression _ | .function _ | .node _ | .raw _ => cases mem

/-- A value of one kind carries nodes only as a node or a list of nodes. -/
theorem nodes_uniform (uniform : p.isUniform = true) : p.nodes ⊆ p.slotNodes := by
  intro n mem
  match p with
  | .node _ => exact mem
  | .many items =>
    obtain ⟨q, there, inside⟩ := mem_nodesOfAll.1 mem
    rw [isUniform, Bool.or_eq_true] at uniform
    obtain actions | nodes := uniform
    · have some := List.all_eq_true.1 actions q there
      cases q with
      | action b => cases inside
      | _ => cases some
    · rw [slotNodes, if_pos nodes]
      have some := List.all_eq_true.1 nodes q there
      cases q with
      | node n' =>
        obtain rfl := List.mem_singleton.1 inside
        exact List.mem_filterMap.2 ⟨_, there, rfl⟩
      | _ => cases some
  | .literal _ | .reference _ | .expression _ | .function _ | .action _ | .raw _ => cases mem

end PropOf

namespace Node

/-- No node of a walk has a list that mixes actions or nodes with other values. -/
def Uniform (root : Node) : Prop := ∀ n ∈ root.walk, ∀ e ∈ n.layer.props, e.2.isUniform = true

/-- On a uniform tree a walk goes everywhere. -/
theorem everywhere_of_walk {P : NodeOf Node → Prop} {n : Node} (uniform : n.Uniform)
    (h : ∀ m ∈ n.walk, P m.layer) : n.Everywhere P := by
  induction n using Node.induction with
  | step n ih =>
    obtain ⟨layer⟩ := n
    refine .mk (h _ (self_mem_walk _)) fun m mem => ?_
    have inside : m ∈ layer.inside := by
      obtain mem | mem := List.mem_append.1 mem
      · obtain ⟨e, there, mem⟩ := List.mem_flatMap.1 mem
        have uniform := uniform _ (self_mem_walk _) e there
        exact NodeOf.inside_of_slot there (PropOf.nodes_uniform uniform mem)
      · exact NodeOf.inside_of_child mem
    have sub : m.walk ⊆ (Node.mk layer).walk := walk_trans (mem_walk_inside inside)
    exact ih m mem (fun n there => uniform n (sub there)) fun n there => h n (sub there)

/-- Under different identifiers every node of a walk is found by its own. -/
theorem find?_of_distinctIds {root n : Node} (distinct : root.DistinctIds) (mem : n ∈ root.walk) :
    root.find? n.layer.id = some n := by
  rw [find?]
  have among : n ∈ root.walk.filter fun m => m.layer.id == n.layer.id :=
    List.mem_filter.2 ⟨mem, beq_self_eq_true _⟩
  cases found : (root.walk.filter fun m => m.layer.id == n.layer.id).getLast? with
  | none =>
    rw [List.getLast?_eq_none_iff.1 found] at among
    cases among
  | some m =>
    obtain ⟨there, same⟩ := List.mem_filter.1 (List.mem_of_getLast? found)
    rw [List.inj_on_of_nodup_map distinct there mem (eq_of_beq same)]

theorem find?_mem {root n : Node} {id : String} (h : root.find? id = some n) :
    n ∈ root.walk ∧ n.layer.id = id :=
  (List.mem_filter.1 (List.mem_of_getLast? h)).imp_right eq_of_beq

end Node

/-- Writing the value fails over none but these faults: no container in it lies in itself, and every whole number in
it has a text, unless that is excused. -/
@[mk_iff isWhole_iff]
structure Value.IsWhole (excused : Set Fault) (v : Value) : Prop where
  acyclic : .circular ∈ v.obstacles → .circular ∈ excused
  short : v.holdsLongNumber = true → .longNumber ∈ excused

section Whole

variable {excused more : Set Fault}

theorem Value.isWhole_of_clean {v : Value} (clean : v.obstacles = []) : v.IsWhole excused := by
  refine ⟨fun circular => ?_, fun long => ?_⟩
  · rw [clean] at circular
    cases circular
  · rw [Value.holdsLongNumber_of_clean clean] at long
    cases long

theorem Value.IsWhole.mono {v : Value} (h : v.IsWhole excused) (sub : excused ⊆ more) : v.IsWhole more :=
  ⟨fun circular => sub (h.acyclic circular), fun long => sub (h.short long)⟩

/-- A setting of an action holds no longer number than all of them. -/
theorem Action.holdsLongNumber_setting {a : Action} {key : String} (long : (a.setting key).holdsLongNumber = true) :
    a.config.holdsLongNumber = true := by
  rw [setting] at long
  cases found : (a.config.entries?.getD []).lookup key with
  | none =>
    rw [found] at long
    cases long
  | some v =>
    rw [found, Option.getD_some] at long
    have mem := Table.mem_of_lookup found
    cases config : a.config with
    | dict es =>
      rw [config] at mem
      exact Value.holdsLongNumber_entriesOf mem long
    | _ =>
      rw [config] at mem
      cases mem

/-- Every setting of an action is short if all of them are. -/
theorem Action.setting_short {a : Action} (h : a.config.IsWhole excused) (key : String)
    (long : (a.setting key).holdsLongNumber = true) : .longNumber ∈ excused :=
  h.short (holdsLongNumber_setting long)

namespace PropOf

variable {ν μ : Type} {p : PropOf ν}

/-- The literals and the settings of the actions of a value are whole. -/
def IsWhole (excused : Set Fault) : PropOf ν → Prop
  | literal v | raw v => v.IsWhole excused
  | action a => a.config.IsWhole excused
  | many items =>
    (many items).isUniform = true ∧ ∀ a ∈ (many items).actions, a.config.IsWhole excused
  | _ => True

theorem isWhole_map (f : ν → μ) (p : PropOf ν) : (p.map f).IsWhole excused ↔ p.IsWhole excused := by
  cases p with
  | many items =>
    have uniform := isUniform_map f (.many items)
    have actions := actions_map f (.many items)
    rw [map] at uniform actions
    rw [map, IsWhole, IsWhole, uniform, actions]
  | _ => exact Iff.rfl

theorem IsWhole.uniform (h : p.IsWhole excused) : p.isUniform = true := by
  cases p with
  | many items => exact h.1
  | _ => rfl

theorem IsWhole.literal (h : p.IsWhole excused) {v : Value} (mem : v ∈ p.literal?) : v.IsWhole excused := by
  cases p with
  | literal w =>
    obtain rfl := Option.some.inj mem
    exact h
  | _ => cases mem

theorem IsWhole.actions (h : p.IsWhole excused) : ∀ a ∈ p.actions, a.config.IsWhole excused := by
  cases p with
  | action a => exact List.forall_mem_singleton.2 h
  | many items => exact h.2
  | _ => exact fun a mem => nomatch mem

end PropOf

/-- The first values of a page's states, the values its functions set, and all values and styles of its tree are
whole. -/
structure Page.IsWhole (excused : Set Fault) (p : Page) : Prop where
  states : ∀ s ∈ p.states, s.2.IsWhole excused
  methods : ∀ m ∈ p.methods, ∀ state value fromEvent,
    m.2 = .setter state value fromEvent → value.IsWhole excused
  values : p.root.Everywhere fun layer => ∀ e ∈ layer.props, e.2.IsWhole excused
  styles : p.root.Everywhere fun layer =>
    ∀ ss ∈ layer.styles, Value.entriesHoldLongNumber ss = true → .longNumber ∈ excused

end Whole

end Pagesmith
