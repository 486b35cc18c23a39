import Mathlib.Data.Set.Basic
import Pagesmith.Fault
import Pagesmith.Value.Text

/-!
The nodes right inside a node of a schema, and induction over them; and the faults that nodes bring into reading.
-/

namespace Pagesmith

/-- The value is neither a sequence nor a mapping: as a property it is taken as it is, and not copied. -/
def Value.isSingle : Value → Bool
  | list _ | tuple _ | dict _ | back _ => false
  | _ => true

/-- The nodes that a slot carries. -/
def Slot.nodes : Slot → List EditorNode
  | .one n => [n]
  | .several ns => ns
  | .none | .broken .. | .endless => []

/-- The nodes that a property carries. -/
def EditorProp.nodes : EditorProp → List EditorNode | mk _ slot => slot.nodes

namespace EditorNode

/-- The nodes in the slots of a node, and its children. -/
def inside (n : EditorNode) : List EditorNode :=
  (n.props.flatMap fun e => e.2.nodes) ++ n.children.getD []

variable {P : EditorNode → Prop}

mutual

/-- What passes from the nodes inside a node to the node holds of every node. -/
theorem induction (step : ∀ n, (∀ n' ∈ n.inside, P n') → P n) (n : EditorNode) : P n := by
  match n with
  | .mk _ _ props children _ _ =>
    refine step _ fun n' mem => ?_
    simp only [inside, EditorNode.props, EditorNode.children, List.mem_append] at mem
    obtain mem | mem := mem
    · exact induction_props step props n' mem
    · match children with
      | none => cases mem
      | some ns => exact induction_all step ns n' mem

theorem induction_all (step : ∀ n, (∀ n' ∈ n.inside, P n') → P n) (ns : List EditorNode) :
    ∀ n ∈ ns, P n := by
  match ns with
  | [] => simp
  | n :: r =>
    simp only [List.forall_mem_cons]
    exact ⟨induction step n, induction_all step r⟩

theorem induction_props (step : ∀ n, (∀ n' ∈ n.inside, P n') → P n)
    (props : List (String × EditorProp)) : ∀ n ∈ props.flatMap fun e => e.2.nodes, P n := by
  match props with
  | [] => simp
  | (_, .mk _ slot) :: r =>
    intro n mem
    obtain mem | mem := List.mem_append.1 mem
    · exact induction_slot step slot n mem
    · exact induction_props step r n mem

theorem induction_slot (step : ∀ n, (∀ n' ∈ n.inside, P n') → P n) (slot : Slot) :
    ∀ n ∈ slot.nodes, P n := by
  match slot with
  | .one n =>
    simp only [Slot.nodes, List.mem_singleton, forall_eq]
    exact induction step n
  | .several ns => exact induction_all step ns
  | .none | .broken .. | .endless => simp [Slot.nodes]

end

/-- The node and all nodes inside it, at any depth, have this property. -/
inductive Everywhere (P : EditorNode → Prop) : EditorNode → Prop
  | mk {n : EditorNode} (here : P n) (inside : ∀ n' ∈ n.inside, Everywhere P n') : Everywhere P n

theorem Everywhere.here {P : EditorNode → Prop} {n : EditorNode} (h : n.Everywhere P) : P n := by
  cases h with
  | mk here _ => exact here

theorem Everywhere.inside {P : EditorNode → Prop} {n : EditorNode} (h : n.Everywhere P) :
    ∀ n' ∈ n.inside, n'.Everywhere P := by
  cases h with
  | mk _ inside => exact inside

theorem Everywhere.mono {P Q : EditorNode → Prop} (weaker : ∀ n, P n → Q n) {n : EditorNode} (h : n.Everywhere P) :
    n.Everywhere Q := by
  induction h with
  | mk here _ ih => exact .mk (weaker _ here) ih

theorem everywhere_of_forall {P : EditorNode → Prop} (h : ∀ n, P n) (n : EditorNode) : n.Everywhere P := by
  induction n using EditorNode.induction with
  | step n ih => exact .mk (h n) ih

/-- The node or a node inside it, at any depth, has this property. -/
inductive Somewhere (P : EditorNode → Prop) : EditorNode → Prop
  | here {n : EditorNode} (h : P n) : Somewhere P n
  | inside {n n' : EditorNode} (mem : n' ∈ n.inside) (h : Somewhere P n') : Somewhere P n

/-- The properties, by component, whose numbers are read as texts. -/
def numbered : List (String × String) := [("FormItem", "name"), ("TabPane", "key")]

/-- The faults that a node brings into reading: one of its slots carries itself, or its identifier is a whole number
too long for a text, or a property is one that is read as a text. -/
inductive Causes (n : EditorNode) : Fault → Prop
  | endlessSlot {key : String} {v : Value} (mem : (key, .mk v .endless) ∈ n.props) : Causes n .endlessSlot
  | longId (long : n.id.holdsLongNumber = true) : Causes n .longNumber
  | longText {key : String} {i : Int} {slot : Slot} (mem : (key, .mk (.int i) slot) ∈ n.props)
      (asText : (n.name, key) ∈ numbered) (long : (Value.int i).holdsLongNumber = true) : Causes n .longNumber

/-- The faults that a node brings in: besides those in reading, a property is such a number, though not a sequence or
a mapping with one in it, or there is one in the styles. -/
inductive Brings (n : EditorNode) : Fault → Prop
  | read {f : Fault} (causes : n.Causes f) : Brings n f
  | prop {key : String} {v : Value} {slot : Slot} (mem : (key, .mk v slot) ∈ n.props) (single : v.isSingle = true)
      (long : v.holdsLongNumber = true) : Brings n .longNumber
  | styles {ss : List (String × Value)} (given : n.styles = some ss)
      (long : Value.entriesHoldLongNumber ss = true) : Brings n .longNumber

/-- The faults that a node and the nodes inside it bring into reading. -/
def faults (n : EditorNode) : Set Fault := {f | n.Somewhere (·.Causes f)}

/-- The faults that a node and the nodes inside it bring in. -/
def allFaults (n : EditorNode) : Set Fault := {f | n.Somewhere (·.Brings f)}

/-- The node brings in none of these faults. -/
def isFaultless (n : EditorNode) : Bool :=
  let fine : EditorProp → Bool
    | .mk _ .endless => false
    | .mk v _ => !(v.isSingle && v.holdsLongNumber)
  !n.id.holdsLongNumber && (n.props.all fun e => fine e.2) && !Value.entriesHoldLongNumber (n.styles.getD [])

theorem brings_none {n : EditorNode} (h : n.isFaultless = true) (f : Fault) : ¬ n.Brings f := by
  simp only [isFaultless, Bool.and_eq_true, Bool.not_eq_true', List.all_eq_true] at h
  obtain ⟨⟨id, props⟩, styles⟩ := h
  rintro (causes | ⟨mem, single, long⟩ | ⟨given, long⟩)
  · cases causes with
    | endlessSlot mem => exact absurd (props _ mem) (by simp)
    | longId long => exact absurd (id.symm.trans long) (by simp)
    | @longText key i slot mem _ long =>
      have fine := props _ mem
      cases slot <;> simp [Value.isSingle, long] at fine
  · next key v slot =>
    have fine := props _ mem
    cases slot <;> simp [single, long] at fine
  · rw [given, Option.getD_some] at styles
    exact absurd (styles.symm.trans long) (by simp)

theorem everywhere_excused {C : EditorNode → Fault → Prop} {excused : Set Fault} {n : EditorNode}
    (h : ∀ f, n.Somewhere (C · f) → f ∈ excused) : n.Everywhere fun m => ∀ f, C m f → f ∈ excused := by
  induction n using EditorNode.induction with
  | step n ih =>
    refine .mk (fun f causes => h f (.here causes)) fun n' mem => ?_
    exact ih n' mem fun f deep => h f (.inside mem deep)

end EditorNode

/-- The faults that nodes and the nodes inside them bring into reading. -/
def faultsOf (ns : List EditorNode) : Set Fault := {f | ∃ n ∈ ns, f ∈ n.faults}

/-- The faults that nodes and the nodes inside them bring in. -/
def allFaultsOf (ns : List EditorNode) : Set Fault := {f | ∃ n ∈ ns, f ∈ n.allFaults}

theorem faults_subset {ns : List EditorNode} {n : EditorNode} (mem : n ∈ ns) : n.faults ⊆ faultsOf ns :=
  fun _ causes => ⟨n, mem, causes⟩

theorem allFaults_subset {ns : List EditorNode} {n : EditorNode} (mem : n ∈ ns) : n.allFaults ⊆ allFaultsOf ns :=
  fun _ brings => ⟨n, mem, brings⟩

theorem EditorNode.Somewhere.mono {P Q : EditorNode → Prop} (weaker : ∀ n, P n → Q n) {n : EditorNode}
    (h : n.Somewhere P) : n.Somewhere Q := by
  induction h with
  | here h => exact .here (weaker _ h)
  | inside mem _ ih => exact .inside mem ih

theorem allFaultsOf_eq_empty {ns : List EditorNode} (h : ∀ n ∈ ns, n.Everywhere (·.isFaultless = true)) :
    allFaultsOf ns = ∅ := by
  have none {n : EditorNode} {f : Fault} (brings : n.Somewhere (·.Brings f)) :
      ¬ n.Everywhere (·.isFaultless = true) := by
    induction brings with
    | here h => exact fun all => EditorNode.brings_none all.here f h
    | inside mem _ ih => exact fun all => ih (all.inside _ mem)
  refine Set.eq_empty_of_forall_notMem fun f => ?_
  rintro ⟨n, mem, brings⟩
  exact none brings (h n mem)

theorem faultsOf_subset (ns : List EditorNode) : faultsOf ns ⊆ allFaultsOf ns := by
  rintro f ⟨n, mem, causes⟩
  exact ⟨n, mem, causes.mono fun _ => .read⟩

end Pagesmith
