import Pagesmith.Proofs.Component.Bindings
import Pagesmith.Proofs.Lifting.Complete
import Pagesmith.Proofs.Lifting.Functions
import Pagesmith.Proofs.Reading.Plain

/-!
The states and functions that the nodes of a page get. They are named after the node's identifier as
it reads in a name, so two nodes share them exactly if their identifiers read alike; otherwise the
functions of one leave alone whatever the other is bound to.
-/

namespace Pagesmith

/-- The states of a page after a function has been run that sets one of them. Functions that have a
source of their own are not run here. -/
def PageMethod.run? (argument : Value) (store : List (String × Value)) :
    PageMethod → Option (List (String × Value))
  | .setter state value fromEvent =>
    some (Table.insert state (if fromEvent then argument else value) store)
  | .function _ => none

namespace Component
open Build Pagesmith.Module Text Lifting

/-- The address that the rows of a node are loaded from under the default catalogue. -/
def rowsUrl (n : Node) : Option String :=
  rowsAddress (Catalogue.default.rendering
    (if n.layer.schemaName == "" then n.layer.component else n.layer.schemaName)
    (some n.layer.component)) n.layer

/-- A node with this identifier gets a state of this name: a method of it has been lifted, or its rows
are loaded into the state. -/
inductive GetsState (p q : Page) (id : String) : String → Prop
  | lifted {t : Target} (mem : t ∈ liftedTargets .default p) (own : t.id = id) :
    GetsState p q id t.state
  | rows {n : Node} {url : String} (mem : n ∈ q.root.walk) (own : n.layer.id = id)
    (loads : rowsUrl n = some url) : GetsState p q id (rowsState id)

/-- A node with this identifier gets a function of this name: for a method of it that has been lifted,
or for one of its closing events. -/
inductive GetsFunction (p : Page) (id : String) : String → Prop
  | lifted {t : Target} {name : String} (mem : t ∈ liftedTargets .default p) (own : t.id = id)
    (function : t.Function name) : GetsFunction p id name

/-- Two nodes share neither a state nor a function, and when a function of the first one is run, what
the second one is bound to stays as it is. -/
structure Apart (p q : Page) (id id' : String) : Prop where
  states : ∀ name, GetsState p q id name → ¬ GetsState p q id' name
  functions : ∀ name, GetsFunction p id name → ¬ GetsFunction p id' name
  runs : ∀ f ∈ q.methods, GetsFunction p id f.1 → ∀ argument store,
    ∃ store', f.2.run? argument store = some store' ∧ ∀ n ∈ q.root.walk, n.layer.id = id' →
      ∀ name ∈ n.layer.references, store'.lookup name = store.lookup name

/-- Lifting has lifted a method of a node with this identifier. -/
def IsLifted (p : Page) (id : String) : Prop := ∃ t ∈ liftedTargets .default p, t.id = id

/-- The rows of a node with this identifier are loaded. -/
def LoadsRows (q : Page) (id : String) : Prop := ∃ n ∈ q.root.walk, n.layer.id = id ∧ rowsUrl n ≠ none

variable {p q : Page} {id id' name : String}

theorem rowsState_inj : rowsState id = rowsState id' ↔ ReadsAlike id id' :=
  toIdentifier_append_inj (by decide)

theorem hasHead_openState (id : String) : HasHead 'o' (stateName "open" id) := by
  have letter : HasHead 'o' "open" := rfl
  exact hasHead_stateName letter rfl id

theorem openState_ne_rowsState (id id' : String) : stateName "open" id ≠ rowsState id' :=
  (hasHead_openState id).ne (hasHead_rowsState id') (by decide)

theorem hasHead_function {t : Target} (function : t.Function name) : HasHead 'h' name := by
  cases function with
  | method => exact hasHead_methodName _ _
  | closing => exact hasHead_closingMethod _ _ _ _

/-- Nodes that share a state both have a lifted method, or both load rows, and read alike. -/
theorem GetsState.shared (h : GetsState p q id name) (h' : GetsState p q id' name) :
    ReadsAlike id id' ∧ (IsLifted p id ∧ IsLifted p id' ∨ LoadsRows q id ∧ LoadsRows q id') := by
  -- The two kinds of states begin with different letters, so both derivations are of one kind. The
  -- state is generalized before the second one is taken apart, since it is an index of both.
  cases h with
  | @lifted t mem own =>
    subst own
    rw [state_of_lifted mem] at h'
    generalize same : stateName "open" t.id = name at h'
    cases h' with
    | @lifted t' mem' own' =>
      subst own'
      rw [state_of_lifted mem'] at same
      exact ⟨openState_inj.1 same, .inl ⟨⟨t, mem, rfl⟩, ⟨t', mem', rfl⟩⟩⟩
    | rows => exact absurd same (openState_ne_rowsState _ _)
  | @rows n url mem own loads =>
    generalize same : rowsState id = name at h'
    cases h' with
    | @lifted t' mem' own' =>
      rw [state_of_lifted mem'] at same
      exact absurd same.symm (openState_ne_rowsState _ _)
    | @rows n' url' mem' own' loads' =>
      exact ⟨rowsState_inj.1 same, .inr ⟨⟨n, mem, own, by simp [loads]⟩,
        ⟨n', mem', own', by simp [loads']⟩⟩⟩

theorem GetsFunction.shared (h : GetsFunction p id name) (h' : GetsFunction p id' name) :
    ReadsAlike id id' ∧ IsLifted p id ∧ IsLifted p id' := by
  obtain @⟨t, _, mem, rfl, function⟩ := h
  obtain @⟨t', _, mem', rfl, function'⟩ := h'
  obtain ⟨head, known, same⟩ := function_of_lifted mem function
  obtain ⟨head', known', same'⟩ := function_of_lifted mem' function'
  exact ⟨(function_inj known known' (same.symm.trans same')).2, ⟨t, mem, rfl⟩, ⟨t', mem', rfl⟩⟩

/-- The function of one node does not touch what a node is bound to whose identifier reads otherwise. -/
theorem runs_apart (owns : Owns (liftedTargets .default p) (finished .default p))
    (apart : ¬ (ReadsAlike id id' ∧ IsLifted p id ∧ IsLifted p id')) {f : String × PageMethod}
    (mem : f ∈ (outcome .default p).methods) (gets : GetsFunction p id f.1) (argument : Value)
    (store : List (String × Value)) : ∃ store', f.2.run? argument store = some store' ∧
      ∀ n ∈ (outcome .default p).root.walk, n.layer.id = id' →
        ∀ name ∈ n.layer.references, store'.lookup name = store.lookup name := by
  obtain ⟨t, lifted, function, value, fromEvent, setter, -⟩ := owns.setters f mem
  obtain ⟨alike, given, -⟩ := gets.shared (GetsFunction.lifted lifted rfl function)
  rw [setter]
  refine ⟨_, rfl, fun n walked same name refers => ?_⟩
  obtain ⟨t', lifted', own, names⟩ := outcome_refers owns n walked name refers
  -- All that is set is the state of `t`, and the other node is bound to states and functions of its own.
  have other : name ≠ t.state := by
    rw [state_of_lifted lifted]
    obtain rfl | function' := names
    · rw [state_of_lifted lifted']
      intro equal
      have alike' : ReadsAlike t.id t'.id := openState_inj.1 equal.symm
      rw [own, same] at alike'
      exact apart ⟨alike.trans alike', given, ⟨t', lifted', own.trans same⟩⟩
    · exact (hasHead_function function').ne (hasHead_openState t.id) (by decide)
  rw [Table.lookup_insert, if_neg (by simpa using other)]

section Written

variable {N : String → Prop}

/-- Every state that the module declares has such a name. -/
def StatesAmong (N : String → Prop) (m : Module) : Prop := ∀ s ∈ m.states, N s.1

theorem addImport_among (d : Dependency) (wish : Option String) :
    Keeps (StatesAmong N) (addImport d wish) := by
  refine fun m h => (addImport_ensures d wish m).mono ?_
  rintro r m' ⟨name, -, ⟨-, -, rfl⟩ | ⟨-, -, rfl⟩ | ⟨-, -, -, rfl⟩⟩
  · exact h
  · exact h
  · exact h

theorem addState_among {name : String} (among : N name) (initial : Value) :
    Keeps (StatesAmong N) (addState name initial) := by
  refine fun m h => (addState_ensures name initial m).mono ?_
  rintro r m' (⟨-, -, rfl⟩ | ⟨-, -, -, rfl⟩ | ⟨-, -, -, rfl⟩)
  · exact h
  · exact h
  · intro s mem
    obtain mem | mem := List.mem_append.1 mem
    · exact h s mem
    · obtain rfl := List.mem_singleton.1 mem
      exact among

theorem addMethod_among (name code : String) {m : Module} (h : StatesAmong N m) :
    StatesAmong N (addMethod name code m) := by
  rw [addMethod]
  split
  · exact h
  · exact h

theorem eventFunction_among (w : Writer) (key id : String) (actions : List Action) :
    Keeps (StatesAmong N) (eventFunction w key id actions) := by
  refine .bind (fun m h => (uniqueName_ensures _ m).mono ?_) fun name =>
    .bind (statements_keeps (addImport_among _) _ _) fun statements =>
      .bind (.modify fun m h => addMethod_among _ _ h) fun _ => .pure _
  rintro r m' ⟨name, -, -, rfl⟩
  exact h

theorem loadRows_among {id : String} (among : N (rowsState id)) (url : String) :
    Keeps (StatesAmong N) (loadRows id url) := by
  refine .bind (addState_among among _) fun _ => .bind (.modify fun m h => ?_) fun _ => .pure _
  rw [addEffect]
  split
  · exact h
  · exact h

theorem writeStates_among {states : List (String × Value)} (names : ∀ s ∈ states, N s.1) :
    Keeps (StatesAmong N) (writeStates states) := by
  induction states with
  | nil => exact .pure _
  | cons s r ih =>
    obtain ⟨first, rest⟩ := List.forall_mem_cons.1 names
    exact .bind (addState_among first s.2) fun _ => ih rest

theorem writeMethods_among (methods : List (String × PageMethod)) :
    Keeps (StatesAmong N) (writeMethods methods) := by
  induction methods with
  | nil => exact .pure _
  | cons f r ih =>
    exact .bind (.ofJob _) fun code => .bind (.modify fun m h => addMethod_among _ _ h) fun _ => ih

theorem writeStyles_among (p : Page) : Keeps (StatesAmong N) (writeStyles p) := by
  refine .bind (.modify fun m h => ?_) fun _ => ?_
  · obtain ⟨classes, nodeClasses, stylesheet, same⟩ := addStyles_eq p.root m
    rw [same]
    exact h
  · dsimp only
    split
    · exact .note _
    · exact .pure _

/-- The module of a uniform page declares the states of the page, and those of rows that its nodes
load. -/
theorem writtenModule_states {q : Page} (uniform : q.root.Uniform) (width : Nat)
    (said : List Notice) : ∀ s ∈ (writtenModule q width said).states,
      s.1 ∈ q.states.map (·.1) ∨ ∃ n ∈ q.root.walk, ∃ url, rowsUrl n = some url ∧
        s.1 = rowsState n.layer.id := by
  -- No part of writing the module adds a state without such a name.
  let N : String → Prop := fun name => name ∈ q.states.map (·.1) ∨
    ∃ n ∈ q.root.walk, ∃ url, rowsUrl n = some url ∧ name = rowsState n.layer.id
  let w : Writer := ⟨.default, Handlers.default, width⟩
  have rows : q.root.Everywhere fun layer =>
      ∀ url, rowsAddress (w.rule layer) layer = some url →
        Keeps (StatesAmong N) (loadRows layer.id url) :=
    Node.everywhere_of_walk uniform fun n mem url loads =>
      loadRows_among (.inr ⟨n, mem, url, loads, rfl⟩) url
  have states : ∀ s ∈ q.states, N s.1 := fun s mem => .inl (List.mem_map_of_mem mem)
  have element : Keeps (StatesAmong N) (element w q.root) :=
    element_keeps_rows addImport_among (eventFunction_among w) rows
  have markup : Keeps (StatesAmong N) (writeMarkup w q) :=
    .bind (writeStates_among states) fun _ => .bind (writeMethods_among q.methods) fun _ =>
      .bind element fun _ => .modify fun _ h => h
  have all : Keeps (StatesAmong N)
      (PagePart.writeAll .default Handlers.default q [.styles, .markup width]) :=
    .bind (writeStyles_among q) fun _ => .bind markup fun _ => .pure ()
  exact all (new _) (fun s mem => nomatch mem) said

end Written

/-- The states and functions of a lifted page, and the states of its module, are those that its nodes
get, and lifted nodes do get theirs. -/
structure Accounts (p q : Page) : Prop where
  states : ∀ name ∈ q.states.map (·.1), ∃ n ∈ p.root.walk, GetsState p q n.layer.id name
  functions : ∀ name ∈ q.methods.map (·.1), ∃ n ∈ p.root.walk, GetsFunction p n.layer.id name
  lifted : ∀ t ∈ liftedTargets .default p, t.state ∈ q.states.map (·.1) ∧
    ∀ name, t.Function name → name ∈ q.methods.map (·.1)
  written : ∀ width said, ∀ s ∈ (writtenModule q width said).states,
    ∃ n ∈ p.root.walk, GetsState p q n.layer.id s.1

theorem accounts_outcome {p : Page} (owns : Owns (liftedTargets .default p) (finished .default p))
    (uniform : p.root.Uniform) : Accounts p (outcome .default p) := by
  have states : ∀ name ∈ (outcome .default p).states.map (·.1),
      ∃ n ∈ p.root.walk, GetsState p (outcome .default p) n.layer.id name := by
    intro name mem
    obtain ⟨t, lifted, rfl⟩ := (owns.states name).1 mem
    obtain ⟨a, n, -, walked, own⟩ := liftedTargets_resolve lifted
    exact ⟨n, walked, .lifted lifted own.symm⟩
  constructor
  case states => exact states
  case functions =>
    intro name mem
    obtain ⟨t, lifted, function⟩ := (owns.functions name).1 mem
    obtain ⟨a, n, -, walked, own⟩ := liftedTargets_resolve lifted
    exact ⟨n, walked, .lifted lifted own.symm function⟩
  case lifted =>
    exact fun t lifted => ⟨(owns.states _).2 ⟨t, lifted, rfl⟩,
      fun name function => (owns.functions name).2 ⟨t, lifted, function⟩⟩
  case written =>
    intro width said s mem
    obtain known | ⟨n', walked', url, loads, same⟩ :=
      writtenModule_states (outcome_uniform .default uniform) width said s mem
    · exact states s.1 known
    -- The rows are found in the lifted tree; their node was at the same place before, with the same
    -- identifier.
    · obtain ⟨n, place, alike⟩ := (outcome_alike .default p).places narrows_redrawn n' walked'
      have own := (data_of_alike (fun _ _ h => h.bare) alike).1
      have gets : GetsState p (outcome .default p) n'.layer.id s.1 := same ▸ .rows walked' rfl loads
      exact ⟨n, place.mem_walk, own ▸ gets⟩

theorem apart_iff (owns : Owns (liftedTargets .default p) (finished .default p)) (id id' : String) :
    Apart p (outcome .default p) id id' ↔ ¬ (ReadsAlike id id' ∧
      (IsLifted p id ∧ IsLifted p id' ∨
        LoadsRows (outcome .default p) id ∧ LoadsRows (outcome .default p) id')) := by
  constructor
  · rintro apart ⟨alike, ⟨⟨t, lifted, own⟩, t', lifted', own'⟩ |
      ⟨⟨n, walked, own, loads⟩, n', walked', own', loads'⟩⟩
    · have same : t.state = t'.state := by
        rw [state_of_lifted lifted, state_of_lifted lifted', own, own', openState_inj]
        exact alike
      exact apart.states t.state (.lifted lifted own) (same ▸ .lifted lifted' own')
    · obtain ⟨url, loads⟩ := Option.ne_none_iff_exists'.1 loads
      obtain ⟨url', loads'⟩ := Option.ne_none_iff_exists'.1 loads'
      have same : rowsState id = rowsState id' := rowsState_inj.2 alike
      exact apart.states (rowsState id) (.rows walked own loads) (same ▸ .rows walked' own' loads')
  · intro apart
    refine ⟨fun name gets gets' => apart (gets.shared gets'), fun name gets gets' => ?_,
      fun f mem gets argument store => runs_apart owns (fun both => ?_) mem gets argument store⟩
    · obtain ⟨alike, lifted⟩ := gets.shared gets'
      exact apart ⟨alike, .inl lifted⟩
    · exact apart ⟨both.1, .inl both.2⟩

/-- For every page of every schema, under the default catalogue: lifting does not fail, and its nodes
account for the states and functions of the page and for the states of its module. Two nodes share none
of them, and no function of one changes what the other is bound to, exactly if their identifiers do not
read alike, or nothing is made for both of them: not both have a lifted method, and not both load
rows. -/
theorem nodes_apart_iff (schema : Value) (log : List Notice) (project : Project)
    (read : (Reading.project .default schema log).1 = .ok project) (p : Page)
    (page : p ∈ project.pages) (said : List Notice) :
    ∃ q, (Lifting.page .default p said).1 = .ok q ∧ Accounts p q ∧
      ∀ n ∈ p.root.walk, ∀ n' ∈ p.root.walk,
        (Apart p q n.layer.id n'.layer.id ↔ ¬ (ReadsAlike n.layer.id n'.layer.id ∧
          (IsLifted p n.layer.id ∧ IsLifted p n'.layer.id ∨
            LoadsRows q n.layer.id ∧ LoadsRows q n'.layer.id))) := by
  have usual := Catalogue.default_readsAsDefault
  obtain ⟨states, methods, plain, short⟩ :=
    Reading.project_plain (Reading.plain_of_readsAsDefault usual) schema log project read p page
  have uniform := Reading.project_uniform usual schema log project read p page
  have owns := finished_owns .default states methods plain
  exact ⟨outcome .default p, page_ends_of_short .default short said, accounts_outcome owns uniform,
    fun n _ n' _ => apart_iff owns n.layer.id n'.layer.id⟩

/-- A button that opens the dialog with this identifier. -/
def openButton (id : Int) (dialog : String) : Value :=
  .dict [("id", .int id), ("name", .str "Button"), ("props", .dict [("onClick", .dict [("actions",
    .list [.dict [("type", .str "componentMethod"), ("config",
      .dict [("componentId", .str dialog), ("method", .str "open")])]])])])]

/-- Two dialogs, each with a button that opens it, whose identifiers differ in a character that no
name can hold. -/
def twinDialogs : Value :=
  .list [.dict [("id", .int 1), ("name", .str "Page"), ("children", .list [
    openButton 2 "a-b", .dict [("id", .str "a-b"), ("name", .str "Modal")],
    openButton 3 "a_b", .dict [("id", .str "a_b"), ("name", .str "Modal")]])]]

theorem twinDialogs_lifted : ((Reading.project .default twinDialogs []).1.toOption.any fun project =>
    project.pages.any fun p => decide (p.root.walk.map (·.layer.id)).Nodup &&
      ["a-b", "a_b"].all fun id => p.root.walk.any (·.layer.id == id) &&
        (liftedTargets .default p).any (·.id == id)) = true := by
  decide +kernel

/-- The two dialogs have different identifiers and are not apart: opening one opens the other. -/
theorem twinDialogs_not_apart : ∃ project p q,
    (Reading.project .default twinDialogs []).1 = .ok project ∧ p ∈ project.pages ∧
      p.root.DistinctIds ∧ (Lifting.page .default p []).1 = .ok q ∧
      (∃ n ∈ p.root.walk, n.layer.id = "a-b") ∧ (∃ n ∈ p.root.walk, n.layer.id = "a_b") ∧
      ¬ Apart p q "a-b" "a_b" := by
  have found := twinDialogs_lifted
  cases read : (Reading.project .default twinDialogs []).1 with
  | error f =>
    rw [read] at found
    contradiction
  | ok project =>
    rw [read] at found
    obtain ⟨p, page, found⟩ := List.any_eq_true.1 found
    obtain ⟨nodup, both⟩ := (Bool.and_eq_true _ _).mp found
    have distinct : (p.root.walk.map (·.layer.id)).Nodup := of_decide_eq_true nodup
    have lifted : ∀ id ∈ ["a-b", "a_b"], (∃ n ∈ p.root.walk, n.layer.id = id) ∧ IsLifted p id := by
      intro id mem
      obtain ⟨there, lifted⟩ := (Bool.and_eq_true _ _).mp (List.all_eq_true.1 both id mem)
      simpa [IsLifted] using And.intro there lifted
    obtain ⟨⟨n, walked, own⟩, first⟩ := lifted "a-b" (by decide)
    obtain ⟨⟨n', walked', own'⟩, second⟩ := lifted "a_b" (by decide)
    obtain ⟨q, lifts, -, apart⟩ := nodes_apart_iff twinDialogs [] project read p page []
    refine ⟨project, p, q, rfl, page, distinct, lifts, ⟨n, walked, own⟩,
      ⟨n', walked', own'⟩, fun h => ?_⟩
    have not_both := (apart n walked n' walked').1 (by rwa [own, own'])
    rw [own, own'] at not_both
    exact not_both ⟨by decide, .inl ⟨first, second⟩⟩

end Component

end Pagesmith
