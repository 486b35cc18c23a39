import Pagesmith.Proofs.Page.Reference
import Pagesmith.Proofs.Reading.Layer

/-!
The property values of a tree as it is read. What holds of each kind of value that reading makes holds
of every value of the tree, whatever components the catalogue has, if its rules bring in no other values.
-/

namespace Pagesmith

/-- Every property value of a tree has this property, also in nodes that no walk goes to. -/
def Node.Holds (P : PropOf Node → Prop) (n : Node) : Prop :=
  n.Everywhere fun layer => ∀ e ∈ layer.props, P e.2

/-- The value has this property, and so has every value of the trees in it. -/
structure PropOf.Holds (P : PropOf Node → Prop) (p : PropOf Node) : Prop where
  here : P p
  nodes : ∀ n ∈ p.nodes, n.Holds P

/-- A value that carries no nodes. -/
theorem PropOf.Holds.alone {P : PropOf Node → Prop} {p : PropOf Node} (here : P p) (bare : p.nodes = []) :
    p.Holds P :=
  ⟨here, bare ▸ List.forall_mem_nil _⟩

theorem Node.holds_iff {P : PropOf Node → Prop} {layer : NodeOf Node} : (Node.mk layer).Holds P ↔
    (∀ e ∈ layer.props, e.2.Holds P) ∧ ∀ n ∈ layer.children.getD [], n.Holds P := by
  constructor
  · rintro ⟨here, below⟩
    refine ⟨fun e mem => ⟨here e mem, fun n carried => ?_⟩, ?_⟩
    · exact below n (List.mem_append_left _ (List.mem_flatMap.2 ⟨e, mem, carried⟩))
    · exact fun n mem => below n (List.mem_append_right _ mem)
  · rintro ⟨props, children⟩
    refine .mk (fun e mem => (props e mem).here) fun n mem => ?_
    obtain mem | mem := List.mem_append.1 mem
    · obtain ⟨e, there, carried⟩ := List.mem_flatMap.1 mem
      exact (props e there).nodes n carried
    · exact children n mem

namespace Reading

variable {α β : Type}

/-- Every outcome of this step of reading has this property. -/
def Gathers (x : Gather α) (Q : α → Prop) : Prop := ∀ found, (x found).Yields fun r => Q r.1

section Gathers

variable {P : α → Prop} {Q : β → Prop}

theorem Gathers.pure {a : α} (h : P a) : Gathers (Pure.pure a) P := fun _ => .pure h

theorem Gathers.bind {x : Gather α} {next : α → Gather β} (first : Gathers x P)
    (rest : ∀ a, P a → Gathers (next a) Q) : Gathers (x >>= next) Q :=
  fun found => .bind (first found) fun r h => rest r.1 h r.2

/-- The outcome of the first step does not matter. -/
theorem Gathers.after {x : Gather α} {next : α → Gather β} (rest : ∀ a, Gathers (next a) Q) :
    Gathers (x >>= next) Q :=
  fun _ => .bind (.any _) fun r _ => rest r.1 r.2

theorem Gathers.lift {job : Job α} (h : job.Yields P) : Gathers (liftM job) P :=
  fun _ => .bind h fun _ holds => .pure holds

end Gathers

/-- This step of reading ends with this outcome and gathers no dependency, whatever was read before. -/
def Settles (x : Gather α) (a : α) : Prop := ∀ found, (x found).Ends (a, found)

section Settles

theorem Settles.pure (a : α) : Settles (Pure.pure a) a := fun _ => .pure _

theorem Settles.lift {job : Job α} {a : α} (h : job.Ends a) : Settles (liftM job) a :=
  fun _ => .bind h (.pure _)

theorem Settles.bind {x : Gather α} {next : α → Gather β} {a : α} {b : β} (first : Settles x a)
    (rest : Settles (next a) b) : Settles (x >>= next) b :=
  fun found => .bind (first found) (rest found)

end Settles

/-- Each kind of value that reading makes has this property: literals, code, actions, and nodes, alone
or in a list. A number too long for a text may be in a literal only if that is excused. -/
structure OfKinds (excused : Set Fault) (P : PropOf Node → Prop) : Prop where
  clean : ∀ v : Value, v.obstacles = [] → P (.literal v)
  literal : ∀ key owner (v : Value), (v.isSingle = true → v.holdsLongNumber = true → .longNumber ∈ excused) →
    (literal key owner v).Yields fun w => P (.literal w)
  expression : ∀ text, P (.expression text)
  function : ∀ text, P (.function text)
  actions : ∀ key owner entries, (actionsOf key owner entries).Yields fun as =>
    (∀ a ∈ as, P (.action a)) ∧ P (.many (as.map .action))
  node : ∀ n, P (.node n)
  nodes : ∀ ns : List Node, P (.many (ns.map .node))

variable {excused : Set Fault} {P : PropOf Node → Prop} {c : Catalogue}

theorem OfKinds.holds_clean (kinds : OfKinds excused P) {v : Value} (clean : v.obstacles = []) :
    (PropOf.literal v : PropOf Node).Holds P :=
  ⟨kinds.clean v clean, fun _ mem => nomatch mem⟩

theorem actionProp_holds (kinds : OfKinds excused P) (key : String) (owner : Owner) (entries : List Value) :
    (actionProp key owner entries : Job (PropOf Node)).Yields (PropOf.Holds P) := by
  refine .bind (kinds.actions key owner entries) fun actions holds => ?_
  obtain ⟨each, all⟩ := holds
  match actions with
  | [] => exact .bind (.any _) fun _ _ => .pure (kinds.holds_clean rfl)
  | [a] =>
    have only : (PropOf.action a : PropOf Node).Holds P :=
      ⟨each a (by simp), fun _ mem => nomatch mem⟩
    dsimp only
    split
    · exact .bind (.any _) fun _ _ => .pure only
    · exact .pure only
  | a :: b :: r =>
    have several : (PropOf.many ((a :: b :: r).map .action) : PropOf Node).Holds P := by
      refine ⟨all, fun n mem => ?_⟩
      change n ∈ PropOf.nodesOfAll ((a :: b :: r).map .action : List (PropOf Node)) at mem
      rw [(PropOf.carried_actions (a :: b :: r)).2] at mem
      cases mem
    dsimp only
    split
    · exact .bind (.any _) fun _ _ => .pure several
    · exact .pure several

theorem holds_nodes (kinds : OfKinds excused P) {ns : List Node} (h : ∀ n ∈ ns, n.Holds P) :
    (PropOf.many (ns.map .node)).Holds P := by
  refine ⟨kinds.nodes ns, fun n mem => h n ?_⟩
  rw [← (PropOf.carried_nodes ns).2]
  exact mem

section Layer

variable {layer : NodeOf Node}

theorem holds_insert (h : (Node.mk layer).Holds P) {p : PropOf Node} (holds : p.Holds P)
    (key : String) : (Node.mk { layer with props := Table.insert key p layer.props }).Holds P := by
  obtain ⟨props, children⟩ := Node.holds_iff.1 h
  refine Node.holds_iff.2 ⟨fun e mem => ?_, children⟩
  obtain same | mem := Table.mem_insert mem
  · rwa [same]
  · exact props e mem

/-- To promote a property moves values or leaves them out. -/
theorem promoteChange_holds (prop : String) (n : EditorNode) (h : (Node.mk layer).Holds P) :
    (Catalogue.promoteChange prop n layer).Yields fun layer' => (Node.mk layer').Holds P := by
  obtain ⟨props, children⟩ := Node.holds_iff.1 h
  have rest : ∀ e ∈ Table.erase prop layer.props, e.2.Holds P :=
    fun e mem => props e (List.mem_filter.1 mem).1
  rw [Catalogue.promoteChange.eq_def]
  split
  · exact .pure h
  · next p found =>
    dsimp only
    split
    · exact .bind (.any _) fun _ _ => .pure (Node.holds_iff.2 ⟨rest, children⟩)
    · split
      · exact .pure (Node.holds_iff.2 ⟨rest, children⟩)
      · refine .pure (Node.holds_iff.2 ⟨fun e mem => ?_, children⟩)
        obtain mem | mem := List.mem_append.1 mem
        · exact rest e mem
        · obtain rfl := List.mem_singleton.1 mem
          have moved := props (prop, p) (Table.mem_of_lookup found)
          exact moved

end Layer

end Reading

open Reading

/-- The rules of the catalogue bring in no values but those with this property. -/
structure Catalogue.Keeps (c : Catalogue) (P : PropOf Node → Prop) : Prop where
  readings : ∀ {name : String} {rule : PropReading}, c.propReadings.lookup name = some rule →
    ∀ key v owner, (rule key v owner).Yields fun p => ∀ q ∈ p, q.Holds P
  changes : ∀ {name : String} {change : NodeChange}, c.nodeChanges.lookup name = some change →
    ∀ n layer, (Node.mk layer).Holds P → (change n layer).Yields fun layer' => (Node.mk layer').Holds P
  rules : ∀ {name : String} {rule : NodeRule}, c.nodeRules.lookup name = some rule →
    ∀ n (context : Context),
      (∀ component dependency, Gathers (context.build component dependency) fun layer => (Node.mk layer).Holds P) →
      (∀ place, ∀ child ∈ context.children place, Gathers child (Node.Holds P)) →
      (∀ key, Gathers (context.prop key) (PropOf.Holds P)) →
      Gathers (rule n context) fun m => ∀ n' ∈ m, n'.Holds P

namespace Reading

variable {excused : Set Fault} {P : PropOf Node → Prop} {c : Catalogue}

theorem numberAsText_holds (kinds : OfKinds excused P) (prop key : String) (v : Value) (owner : Owner) :
    (Catalogue.numberAsText prop key v owner).Yields fun p => ∀ q ∈ p, q.Holds P := by
  have none : (pure none : Job (Option (PropOf Node))).Yields fun p => ∀ q ∈ p, q.Holds P := .pure (by simp)
  have written : Job.Yields (do return some (.literal (.str (← v.text?))) : Job (Option (PropOf Node)))
      fun p => ∀ q ∈ p, q.Holds P := by
    refine .bind (.any _) fun text _ => .pure ?_
    rintro _ ⟨⟩
    exact kinds.holds_clean rfl
  rw [Catalogue.numberAsText.eq_def]
  split
  · cases v with
    | int | float => exact written
    | _ => exact none
  · exact none

/-- The rules of the default catalogue move values, and bring in texts. -/
theorem keeps_of_readsAsDefault (usual : c.ReadsAsDefault) (kinds : OfKinds excused P) : c.Keeps P where
  readings {name rule} found key v owner := by
    obtain ⟨prop, rfl, -⟩ := usual.reading_eq found
    exact numberAsText_holds kinds prop key v owner
  changes {name change} found n layer holds := by
    obtain ⟨prop, rfl⟩ := usual.change_eq found
    exact promoteChange_holds prop n holds
  rules {name rule} found n context build _ _ := by
    obtain rfl := usual.rule_eq found
    refine .after fun _ => .bind (build _ _) fun layer holds => .pure ?_
    rintro _ ⟨⟩
    exact holds_insert holds (kinds.holds_clean rfl) "icon"

/-- Whatever is read of this node, every value in it has the property. -/
def ReadsHolding (P : PropOf Node → Prop) (c : Catalogue) (n : EditorNode) : Prop :=
  ∀ path, Gathers (node c path n) (Node.Holds P)

theorem nodes_hold {ns : List EditorNode} (h : ∀ n ∈ ns, ReadsHolding P c n) (path : List String)
    (index : Nat) : Gathers (nodes c path index ns) fun found => ∀ n ∈ found, n.Holds P := by
  induction ns generalizing index with
  | nil => exact .pure (by simp)
  | cons n r ih =>
    refine .bind (h n (by simp) _) fun first holds => ?_
    refine .bind (ih (fun n mem => h n (by simp [mem])) _) fun rest more => .pure ?_
    exact List.forall_mem_cons.2 ⟨holds, more⟩

theorem eachNode_holds {ns : List EditorNode} (h : ∀ n ∈ ns, ReadsHolding P c n) (path : List String) :
    ∀ child ∈ eachNode c path ns, Gathers child (Node.Holds P) := by
  induction ns with
  | nil => exact fun child mem => nomatch mem
  | cons n r ih =>
    rw [eachNode, List.forall_mem_cons]
    exact ⟨h n (by simp) path, ih fun n mem => h n (by simp [mem])⟩

section Values

variable (kinds : OfKinds excused P) (keeps : c.Keeps P)
include kinds keeps

theorem propValue_holds {slot : Slot} (h : ∀ n ∈ slot.nodes, ReadsHolding P c n)
    (owner : Owner) (path : List String) (key : String) {v : Value}
    (short : v.isSingle = true → v.holdsLongNumber = true → .longNumber ∈ excused) :
    Gathers (propValue c owner path key (.mk v slot)) (PropOf.Holds P) := by
  have taken : Gathers (do return .literal (← literal key owner v) : Gather (PropOf Node))
      (PropOf.Holds P) :=
    .bind (.lift (kinds.literal key owner v short)) fun w holds => .pure (.alone holds rfl)
  have plain (form : String) : Gathers (do
      Job.note (malformedNotice key owner form)
      return .literal (← literal key owner v) : Gather (PropOf Node)) (PropOf.Holds P) :=
    .after fun _ => taken
  have special : (special? (c.propReadings.lookup owner.name) key v owner).Yields fun p => ∀ q ∈ p, q.Holds P := by
    cases found : c.propReadings.lookup owner.name with
    | none => exact .pure (by simp)
    | some rule => exact keeps.readings found key v owner
  rw [propValue.eq_def]
  dsimp only
  refine .bind (.lift special) fun p known => ?_
  cases p with
  | some p => exact .pure (known p rfl)
  | none =>
    dsimp only
    split
    · exact .lift (actionProp_holds kinds _ _ _)
    split
    · exact .pure (.alone (kinds.expression _) rfl)
    · exact .pure (.alone (kinds.function _) rfl)
    · exact plain _
    · exact plain _
    · cases slot with
      | none => exact plain _
      | broken => exact .after fun _ => plain _
      | one n =>
        refine .bind (h n (by simp [Slot.nodes]) _) fun m holds => .pure ⟨kinds.node m, ?_⟩
        simpa [PropOf.nodes] using holds
      | several ns => exact .bind (nodes_hold h path 0) fun ms holds => .pure (holds_nodes kinds holds)
      | endless =>
        intro found log a failed
        cases failed
    · exact taken

theorem propValues_hold {props : List (String × EditorProp)}
    (h : ∀ n ∈ props.flatMap fun e => e.2.nodes, ReadsHolding P c n) (owner : Owner)
    (path : List String) (short : ∀ key v slot, (key, .mk v slot) ∈ props → v.isSingle = true →
      v.holdsLongNumber = true → .longNumber ∈ excused) :
    Gathers (propValues c owner path props) fun found => ∀ e ∈ found, e.2.Holds P := by
  induction props with
  | nil => exact .pure (by simp)
  | cons e r ih =>
    obtain ⟨key, v, slot⟩ := e
    have rest := ih (fun n mem => h n (List.mem_append_right _ mem))
      fun key v slot mem => short key v slot (List.mem_cons_of_mem _ mem)
    rw [propValues]
    split
    · exact rest
    · have first := propValue_holds kinds keeps (fun n mem => h n (List.mem_append_left _ mem)) owner
        (path ++ [key]) key (short key v slot List.mem_cons_self)
      refine .bind first fun p holds => .bind rest fun ps more => .pure ?_
      exact List.forall_mem_cons.2 ⟨holds, more⟩

theorem namedProp_holds {props : List (String × EditorProp)}
    (h : ∀ n ∈ props.flatMap fun e => e.2.nodes, ReadsHolding P c n) (owner : Owner)
    (path : List String) (key : String) (short : ∀ key v slot, (key, .mk v slot) ∈ props → v.isSingle = true →
      v.holdsLongNumber = true → .longNumber ∈ excused) :
    Gathers (namedProp c owner path key props) (PropOf.Holds P) := by
  induction props with
  | nil => exact .pure (kinds.holds_clean rfl)
  | cons e r ih =>
    obtain ⟨k, v, slot⟩ := e
    rw [namedProp]
    split
    · exact propValue_holds kinds keeps (fun n mem => h n (List.mem_append_left _ mem)) owner path key
        (short k v slot List.mem_cons_self)
    · exact ih (fun n mem => h n (List.mem_append_right _ mem))
        fun key v slot mem => short key v slot (List.mem_cons_of_mem _ mem)

theorem node_holds {n : EditorNode} (sub : n.allFaults ⊆ excused) : ReadsHolding P c n := by
  have everywhere := EditorNode.everywhere_excused sub
  induction n using EditorNode.induction with
  | step n ih =>
    intro path
    have below : ∀ n' ∈ n.inside, ReadsHolding P c n' := fun n' mem =>
      ih n' mem (fun f deep => sub (.inside mem deep)) (everywhere.inside n' mem)
    have excuses := everywhere.here
    obtain ⟨id, name, props, children, styles, extra⟩ := n
    have short : ∀ key v slot, (key, .mk v slot) ∈ props → v.isSingle = true → v.holdsLongNumber = true →
        .longNumber ∈ excused := fun _ _ _ mem single long => excuses _ (.prop mem single long)
    have inProps := fun n mem => below n (List.mem_append_left _ mem)
    have inChildren : ∀ n ∈ children.getD [], ReadsHolding P c n :=
      fun n mem => below n (List.mem_append_right _ mem)
    -- The ways to build a node are settled one by one before the rules choose among them.
    rw [node.eq_def]
    dsimp -zeta only
    extract_lets given owner build usually context
    have built (component : String) (dependency : Dependency) :
        Gathers (build component dependency) fun layer => (Node.mk layer).Holds P := by
      refine .after fun ident => .bind (propValues_hold kinds keeps inProps owner path short) fun ps holds => ?_
      obtain none | nil | ⟨n, r⟩ := children
      · exact .pure (Node.holds_iff.2 ⟨holds, by simp⟩)
      · exact .pure (Node.holds_iff.2 ⟨holds, by simp⟩)
      · refine .bind (inChildren n (by simp) _) fun first first_holds => ?_
        have others : ∀ n ∈ r, ReadsHolding P c n := fun n mem => inChildren n (by simp [mem])
        refine .bind (nodes_hold others path 1) fun rest more => .pure ?_
        exact Node.holds_iff.2 ⟨holds, List.forall_mem_cons.2 ⟨first_holds, more⟩⟩
    have stands (ident : String) (ms : List Node) (below : ∀ m ∈ ms, m.Holds P) :
        (Node.mk (fallback ident name ms)).Holds P := by
      refine Node.holds_iff.2 ⟨?_, below⟩
      simp only [fallback, List.forall_mem_cons]
      exact ⟨kinds.holds_clean rfl, kinds.holds_clean rfl, by simp⟩
    have inUsual : Gathers usually (Node.Holds P) := by
      unfold usually
      split
      · refine .after fun _ => .after fun ident => ?_
        cases children with
        | none => exact .pure (stands ident [] (by simp))
        | some ns => exact .bind (nodes_hold inChildren path 0) fun ms below => .pure (stands ident ms below)
      · refine .after fun _ => .bind (built _ _) fun layer holds => ?_
        split
        · next change found =>
          exact .bind (.lift (keeps.changes found given layer holds)) fun layer holds => .pure holds
        · exact .pure holds
    split
    · exact inUsual
    · next rule found =>
      have children_hold (place : List String) : ∀ child ∈ context.children place, Gathers child (Node.Holds P) := by
        cases children with
        | none => exact List.forall_mem_nil _
        | some ns => exact eachNode_holds inChildren place
      have named (key : String) : Gathers (context.prop key) (PropOf.Holds P) :=
        namedProp_holds kinds keeps inProps owner path key short
      refine .bind (keeps.rules found given context built children_hold named) fun m holds => ?_
      cases m with
      | some m => exact .pure (holds m rfl)
      | none => exact inUsual

theorem pages_hold {ns : List EditorNode} (sub : ∀ n ∈ ns, n.allFaults ⊆ excused) (used : List String)
    (index : Nat) : (pages c used index ns).Yields fun found =>
      ∀ p ∈ found, p.states = [] ∧ p.methods = [] ∧ p.root.Holds P := by
  induction ns generalizing used index with
  | nil => exact .pure (by simp)
  | cons n r ih =>
    obtain ⟨own, others⟩ := List.forall_mem_cons.1 sub
    refine .bind (node_holds kinds keeps own [toString index] []) fun found holds => ?_
    refine .bind (ih others _ _) fun rest more => .pure ?_
    exact List.forall_mem_cons.2 ⟨⟨rfl, rfl, holds⟩, more⟩

/-- The pages of a schema have no states and no functions, and every value in their trees has this
property. -/
theorem project_holds (schema : Value) : (project c schema).Yields fun p =>
    ∀ ns, Schema.read schema = .ok ns → allFaultsOf (pageRoots ns) ⊆ excused →
      ∀ q ∈ p.pages, q.states = [] ∧ q.methods = [] ∧ q.root.Holds P := by
  intro log p ok ns read sub
  obtain ⟨ns', read', holds⟩ := project_yields (Q := fun roots ps => (∀ n ∈ roots, n.allFaults ⊆ excused) →
    ∀ q ∈ ps, q.states = [] ∧ q.methods = [] ∧ q.root.Holds P)
    (fun roots log ps done excuses => pages_hold kinds keeps excuses [] 0 log ps done) log p ok
  rw [read] at read'
  obtain rfl := Except.ok.inj read'
  exact holds fun n mem => Set.Subset.trans (allFaults_subset mem) sub

end Values

end Reading

end Pagesmith
