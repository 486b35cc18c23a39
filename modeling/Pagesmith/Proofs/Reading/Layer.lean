import Pagesmith.Catalogue.Default
import Pagesmith.Proofs.Reading.Inside
import Pagesmith.Proofs.Reading.Roots
import Pagesmith.Proofs.Table
import Pagesmith.Proofs.Value.Refold

/-!
What one node of a page is made of. `LayerOf` says everything that reading can make of a node of the
schema, in terms of what it makes of the nodes inside that node; a property that passes from the nodes
inside to the node itself then holds of every node that is read, without another look at the rules.
-/

namespace Pagesmith

/-- The rules of the catalogue that read nodes are those of the default one. -/
structure Catalogue.ReadsAsDefault (c : Catalogue) : Prop where
  rules : c.nodeRules = default.nodeRules
  changes : c.nodeChanges = default.nodeChanges
  readings : c.propReadings = default.propReadings

theorem Catalogue.default_readsAsDefault : Catalogue.default.ReadsAsDefault := ⟨rfl, rfl, rfl⟩

namespace Catalogue.ReadsAsDefault

variable {c : Catalogue} (usual : c.ReadsAsDefault) {name : String}
include usual

theorem rule_eq {rule : NodeRule} (found : c.nodeRules.lookup name = some rule) : rule = iconRule := by
  have mem := Table.mem_of_lookup found
  rw [usual.rules] at mem
  exact (Prod.mk.inj (List.mem_singleton.1 mem)).2

theorem change_eq {change : NodeChange} (found : c.nodeChanges.lookup name = some change) :
    ∃ prop, change = promoteChange prop := by
  have mem := Table.mem_of_lookup found
  rw [usual.changes] at mem
  obtain ⟨-, same⟩ | ⟨-, same⟩ : (_ ∧ change = promoteChange "text") ∨ (_ ∧ change = promoteChange "content") := by
    simpa [default] using mem
  · exact ⟨_, same⟩
  · exact ⟨_, same⟩

theorem reading_eq {reading : PropReading} (found : c.propReadings.lookup name = some reading) :
    ∃ prop, reading = numberAsText prop ∧ (name, prop) ∈ EditorNode.numbered := by
  have mem := Table.mem_of_lookup found
  rw [usual.readings] at mem
  obtain ⟨named, same⟩ | ⟨named, same⟩ : (name = "FormItem" ∧ reading = numberAsText "name") ∨
      (name = "TabPane" ∧ reading = numberAsText "key") := by
    simpa [default] using mem
  · exact ⟨_, same, by simp [named, EditorNode.numbered]⟩
  · exact ⟨_, same, by simp [named, EditorNode.numbered]⟩

end Catalogue.ReadsAsDefault

/-- The value is code: an expression, or the source of a function. -/
def Value.isCode (v : Value) : Bool :=
  let entries := v.entries?.getD []
  match entries.lookup "type", (entries.lookup "value").bind Value.str? with
  | some (.str kind), some _ => kind == "JSExpression" || kind == "JSFunction"
  | _, _ => false

namespace Reading

variable {α β : Type}

/-- What this step of reading yields has this property, and it fails over none but these faults. -/
def Reads (excused : Set Fault) (x : Gather α) (Q : α → Prop) : Prop :=
  ∀ found, (x found).Completes excused fun r => Q r.1

/-- A way to say what steps of reading yield, none of which fails over any but the excused faults. What is said of a
step may depend on what is gathered after it; so the second of two steps is judged whatever the first one yields, and
only then used with what is said of the first. -/
structure Judgement where
  Holds {α : Type} : Gather α → (α → Prop) → Prop
  Excused : Set Fault
  /-- What is said of a dependency that has been required, and of one that imports nothing. -/
  Given : Dependency → Prop
  none : Given Dependency.none
  pure {α : Type} {a : α} {P : α → Prop} (h : P a) : Holds (Pure.pure a) P
  bind {α β : Type} {x : Gather α} {next : α → Gather β} {P : α → Prop} {Q : β → Prop}
    (first : Holds x P) (rest : ∀ a, Holds (next a) fun b => P a → Q b) : Holds (x >>= next) Q
  mono {α : Type} {x : Gather α} {P Q : α → Prop} (h : Holds x P) (weaker : ∀ a, P a → Q a) : Holds x Q
  lift {α : Type} {job : Job α} {P : α → Prop} (h : job.Completes Excused P) : Holds (liftM job) P
  require (d : Dependency) : Holds (require d) fun _ => Given d

namespace Judgement

variable (J : Judgement) {P : α → Prop} {Q : β → Prop}

/-- What the first of two steps yields does not matter. -/
theorem after {x : Gather α} {next : α → Gather β} (first : J.Holds x P)
    (rest : ∀ a, J.Holds (next a) Q) : J.Holds (x >>= next) Q :=
  J.bind first fun a => J.mono (rest a) fun _ holds _ => holds

theorem note (n : Notice) : J.Holds (liftM (Job.note n)) fun _ => True := J.lift (.note n)

end Judgement

/-- The judgement that says nothing about dependencies. -/
def reading (excused : Set Fault) : Judgement where
  Holds := Reads excused
  Excused := excused
  Given _ := True
  none := trivial
  pure h _ := .pure h
  bind first rest found := by
    refine .bind (first found) fun r holds => (rest r.1 r.2).mono fun r' given => ?_
    exact given holds
  mono h weaker found := (h found).mono fun r holds => weaker r.1 holds
  lift h _ := .bind h fun _ holds => .pure holds
  require _ _ := .pure trivial

section Relations

variable (R : List String → EditorNode → Node → Prop)

/-- What nodes at one place are read as, counted from `index` on. -/
inductive NodesOf (path : List String) : (index : Nat) → List EditorNode → List Node → Prop
  | nil {index : Nat} : NodesOf path index [] []
  | cons {index : Nat} {n : EditorNode} {m : Node} {ns : List EditorNode} {ms : List Node}
      (first : R (path ++ [toString index]) n m) (rest : NodesOf path (index + 1) ns ms) :
      NodesOf path index (n :: ns) (m :: ms)

/-- What the value of a property is read as: a literal, code, actions, or the nodes it carries. -/
inductive ValueOf (path : List String) : EditorProp → PropOf Node → Prop
  | literal {p : EditorProp} (v : Value) : ValueOf path p (.literal v)
  | expression {p : EditorProp} (isCode : p.value.isCode = true) (text : String) :
      ValueOf path p (.expression text)
  | function {p : EditorProp} (isCode : p.value.isCode = true) (text : String) :
      ValueOf path p (.function text)
  | action {p : EditorProp} (a : Action) : ValueOf path p (.action a)
  | actions {p : EditorProp} (as : List Action) : ValueOf path p (.many (as.map .action))
  | node {v : Value} {n : EditorNode} {m : Node} (inner : R (path ++ ["0"]) n m) :
      ValueOf path (.mk v (.one n)) (.node m)
  | nodes {v : Value} {ns : List EditorNode} {ms : List Node} (inner : NodesOf R path 0 ns ms) :
      ValueOf path (.mk v (.several ns)) (.many (ms.map .node))

/-- What a property of a node is read as, under its own name. -/
structure EntryOf (path : List String) (given : String × EditorProp) (e : String × PropOf Node) :
    Prop where
  key : e.1 = given.1
  value : ValueOf R (path ++ [given.1]) given.2 e.2

end Relations

/-- The names under which the rules put literals of their own. -/
def ruleKeys : List String := ["icon", "data-unknown-component", "children"]

/-- What the rules make of the properties that were read: some are left out, one becomes the children,
and literals are added. -/
inductive Arranged (read : List (String × PropOf Node)) : List (String × PropOf Node) → Prop
  | same : Arranged read read
  | fewer {props rest : List (String × PropOf Node)} (h : Arranged read props)
      (left : rest.Sublist props) : Arranged read rest
  | moved {props : List (String × PropOf Node)} (h : Arranged read props) {key : String}
      {p : PropOf Node} (found : props.lookup key = some p) :
      Arranged read (Table.erase key props ++ [("children", p)])
  | put {props : List (String × PropOf Node)} (h : Arranged read props) {key : String}
      (known : key ∈ ruleKeys) (v : Value) : Arranged read (Table.insert key (.literal v) props)

/-- The component that a node becomes, and what has to be imported for it. -/
inductive Provided (c : Catalogue) (name : String) : String → Dependency → Prop
  | unknown : Provided c name fallbackTag Dependency.none
  | known {m : Material} (found : c.material? name = some m) :
      Provided c name m.component (materialDependency m)
  | icon (v : Value) :
      Provided c name (Catalogue.iconName v) (Catalogue.iconImport (some (Catalogue.iconName v)))

/-- What a node of the schema is read as at a place, over what the nodes inside it are read as. -/
structure LayerOf (c : Catalogue) (R : List String → EditorNode → Node → Prop) (path : List String)
    (n : EditorNode) (layer : NodeOf Node) : Prop where
  id : nodeId n.id path = .ok layer.id
  name : layer.schemaName = n.name
  plain : layer.cssClass = none
  styles : layer.styles = none ∨ layer.styles = givenStyles n.styles
  provided : Provided c n.name layer.component layer.dependency
  children : NodesOf R path 0 (n.children.getD []) (layer.children.getD [])
  props : ∃ given read, given.Sublist n.props ∧ List.Forall₂ (EntryOf R path) given read ∧
    Arranged read layer.props

namespace LayerOf

variable {c : Catalogue} {R : List String → EditorNode → Node → Prop} {path : List String}
  {n : EditorNode} {layer : NodeOf Node}

/-- The rules may arrange the properties anew. -/
theorem withProps (h : LayerOf c R path n layer) {props : List (String × PropOf Node)}
    (arrange : ∀ read, Arranged read layer.props → Arranged read props) :
    LayerOf c R path n { layer with props := props } := by
  obtain ⟨given, read, left, entries, arranged⟩ := h.props
  exact { h with props := ⟨given, read, left, entries, arrange read arranged⟩ }

end LayerOf

/-- The changes of the default catalogue arrange the properties of a node anew, and leave the rest of it. -/
theorem promoteChange_arranges (prop : String) (n : EditorNode) (layer : NodeOf Node) :
    (Catalogue.promoteChange prop n layer).Gives fun changed =>
      ∃ props, changed = { layer with props := props } ∧
        ∀ read, Arranged read layer.props → Arranged read props := by
  have rest : ∀ read, Arranged read layer.props → Arranged read (Table.erase prop layer.props) :=
    fun _ arranged => arranged.fewer List.filter_sublist
  rw [Catalogue.promoteChange]
  split
  · exact .pure ⟨layer.props, rfl, fun _ arranged => arranged⟩
  · next p found =>
    dsimp only
    split
    · exact .bind (.note _) fun _ _ => .pure ⟨_, rfl, rest⟩
    · split
      · exact .pure ⟨_, rfl, rest⟩
      · exact .pure ⟨_, rfl, fun _ arranged => arranged.moved found⟩

section Steps

variable {J : Judgement} {c : Catalogue} {R : List String → EditorNode → Node → Prop}

/-- Reading these nodes does not fail, wherever they stand, and yields what `R` says. -/
def AllRead (J : Judgement) (c : Catalogue) (R : List String → EditorNode → Node → Prop)
    (ns : List EditorNode) : Prop :=
  ∀ n ∈ ns, ∀ path, J.Holds (node c path n) (R path n)

theorem nodes_of {ns : List EditorNode} (h : AllRead J c R ns) (path : List String) (index : Nat) :
    J.Holds (nodes c path index ns) (NodesOf R path index ns) := by
  induction ns generalizing index with
  | nil => exact J.pure .nil
  | cons n r ih =>
    rw [nodes]
    refine J.bind (h n (by simp) _) fun first => ?_
    refine J.bind (ih (fun n mem => h n (by simp [mem])) _) fun rest => J.pure fun more holds => ?_
    exact .cons holds more

theorem literal_gives (key : String) (owner : Owner) (v : Value) :
    (literal key owner v).Gives fun _ => True := by
  cases v with
  | null | bool | int | float | str | torn => exact .pure trivial
  | list | tuple | dict | back =>
    simp only [literal]
    split
    · exact .pure trivial
    · exact .bind (.note _) fun _ _ => .pure trivial
  | bytes | function | node | foreign => exact .bind (.note _) fun _ _ => .pure trivial

theorem action?_gives (key : String) (owner : Owner) (entry : Value) :
    (action? key owner entry).Gives fun _ => True := by
  rw [action?]
  split
  · exact .pure trivial
  split
  · split
    · exact .pure trivial
    split
    · exact .pure trivial
    · exact .bind (.note _) fun _ _ => .pure trivial
  · exact .pure trivial

theorem actionsOf_gives (key : String) (owner : Owner) (entries : List Value) :
    (actionsOf key owner entries).Gives fun _ => True := by
  induction entries with
  | nil => exact .pure trivial
  | cons entry r ih =>
    exact .bind (action?_gives key owner entry) fun _ _ => .bind ih fun _ _ => .pure trivial

theorem actionProp_of (path : List String) (p : EditorProp) (key : String) (owner : Owner)
    (entries : List Value) : (actionProp key owner entries).Gives (ValueOf R path p) := by
  refine .bind (actionsOf_gives key owner entries) fun actions _ => ?_
  match actions with
  | [] => exact .bind (.note _) fun _ _ => .pure (.literal _)
  | [a] =>
    dsimp only
    split
    · exact .bind (.note _) fun _ _ => .pure (.action a)
    · exact .pure (.action a)
  | a :: b :: r =>
    dsimp only
    split
    · exact .bind (.note _) fun _ _ => .pure (.actions (a :: b :: r))
    · exact .pure (.actions (a :: b :: r))

/-- The readings of the default catalogue make literals of numbers, unless these are too long. -/
theorem special_of (usual : c.ReadsAsDefault) {excused : Set Fault} (key : String) {v : Value} (owner : Owner)
    (short : ∀ i, v = .int i → (owner.name, key) ∈ EditorNode.numbered → v.holdsLongNumber = true →
      .longNumber ∈ excused) :
    (special? (c.propReadings.lookup owner.name) key v owner).Completes excused
      fun p => ∀ q ∈ p, ∃ w, q = .literal w := by
  have none : (pure none : Job (Option (PropOf Node))).Completes excused fun p => ∀ q ∈ p, ∃ w, q = .literal w :=
    .pure (by simp)
  have asText (prop : String) (known : (owner.name, prop) ∈ EditorNode.numbered) :
      (Catalogue.numberAsText prop key v owner).Completes excused fun p => ∀ q ∈ p, ∃ w, q = .literal w := by
    have written (short : v.holdsLongNumber = true → .longNumber ∈ excused) :
        Job.Completes (do return some (.literal (.str (← v.text?))) : Job (Option (PropOf Node))) excused
          fun p => ∀ q ∈ p, ∃ w, q = .literal w :=
      .bind (.ofExcept (Value.text?_meets short)) fun t _ => .pure (by simp)
    rw [Catalogue.numberAsText.eq_def]
    split
    · next same =>
      obtain rfl := eq_of_beq same
      cases v with
      | int i => exact written (short i rfl known)
      | float => exact written fun long => nomatch long
      | _ => exact none
    · exact none
  cases found : c.propReadings.lookup owner.name with
  | none => exact none
  | some reading =>
    obtain ⟨prop, rfl, known⟩ := usual.reading_eq found
    exact asText prop known

variable (usual : c.ReadsAsDefault)
include usual

theorem propValue_of {slot : Slot} (h : AllRead J c R slot.nodes) (owner : Owner)
    (path : List String) (key : String) {v : Value}
    (short : ∀ i, v = .int i → (owner.name, key) ∈ EditorNode.numbered → v.holdsLongNumber = true →
      .longNumber ∈ J.Excused) (ends : slot = .endless → .endlessSlot ∈ J.Excused) :
    J.Holds (propValue c owner path key (.mk v slot)) (ValueOf R path (.mk v slot)) := by
  have taken : J.Holds (do return .literal (← literal key owner v) : Gather (PropOf Node))
      (ValueOf R path (.mk v slot)) :=
    J.after (J.lift (literal_gives key owner v).completes) fun w => J.pure (.literal w)
  have plain (form : String) : J.Holds (do
      Job.note (malformedNotice key owner form)
      return .literal (← literal key owner v) : Gather (PropOf Node))
      (ValueOf R path (.mk v slot)) := J.after (J.note _) fun _ => taken
  rw [propValue.eq_def]
  dsimp only
  refine J.bind (J.lift (special_of usual key owner short)) fun p => ?_
  cases p with
  | some p =>
    refine J.pure fun known => ?_
    obtain ⟨w, rfl⟩ := known p rfl
    exact .literal w
  | none =>
    refine J.mono ?_ fun _ holds _ => holds
    dsimp only
    split
    · exact J.lift (actionProp_of path _ key owner _).completes
    split
    · next kind text =>
      exact J.pure (.expression (by simp [EditorProp.value, Value.isCode, kind, text]) _)
    · next kind text =>
      exact J.pure (.function (by simp [EditorProp.value, Value.isCode, kind, text]) _)
    · exact plain _
    · exact plain _
    · cases slot with
      | none => exact plain _
      | broken => exact J.after (J.note _) fun _ => plain _
      | one n =>
        exact J.bind (h n (by simp [Slot.nodes]) _) fun m => J.pure fun inner => .node inner
      | several ns => exact J.bind (nodes_of h path 0) fun ms => J.pure fun inner => .nodes inner
      | endless => exact J.lift (.fail (ends rfl))
    · exact taken

/-- The properties that are read are those of the node, but for those that every object has. -/
theorem propValues_of {props : List (String × EditorProp)}
    (h : AllRead J c R (props.flatMap fun e => e.2.nodes)) (owner : Owner) (path : List String)
    (short : ∀ key i slot, (key, .mk (.int i) slot) ∈ props → (owner.name, key) ∈ EditorNode.numbered →
      (Value.int i).holdsLongNumber = true → .longNumber ∈ J.Excused)
    (ends : ∀ key v, (key, .mk v .endless) ∈ props → .endlessSlot ∈ J.Excused) :
    J.Holds (propValues c owner path props) fun read =>
      ∃ given, given.Sublist props ∧ List.Forall₂ (EntryOf R path) given read := by
  induction props with
  | nil => exact J.pure ⟨[], .slnil, .nil⟩
  | cons e r ih =>
    obtain ⟨key, v, slot⟩ := e
    have rest := ih (fun n mem => h n (List.mem_append_right _ mem))
      (fun key i slot mem => short key i slot (List.mem_cons_of_mem _ mem))
      fun key v mem => ends key v (List.mem_cons_of_mem _ mem)
    rw [propValues]
    split
    · refine J.mono rest fun _ left => ?_
      obtain ⟨given, left, entries⟩ := left
      exact ⟨given, left.cons _, entries⟩
    · have endless (same : slot = .endless) : .endlessSlot ∈ J.Excused := ends key v (same ▸ List.mem_cons_self)
      have own (i : Int) (same : v = .int i) := short key i slot (same ▸ List.mem_cons_self)
      have first := propValue_of usual (fun n mem => h n (List.mem_append_left _ mem)) owner (path ++ [key]) key
        (fun i same asText long => own i same asText (same ▸ long)) endless
      refine J.bind first fun p => J.bind rest fun read => J.pure fun left value => ?_
      obtain ⟨given, left, entries⟩ := left
      exact ⟨(key, .mk v slot) :: given, left.cons_cons _, .cons ⟨rfl, value⟩ entries⟩

end Steps

variable {c : Catalogue} {R : List String → EditorNode → Node → Prop}

/-- The identifier of a node has a text, unless it is excused that it holds a number too long for one. -/
theorem nodeId_meets {excused : Set Fault} {id : Value} (path : List String)
    (short : id.holdsLongNumber = true → .longNumber ∈ excused) :
    Job.Meets excused (nodeId id path = .ok ·) (nodeId id path) := by
  have outcome : Job.Meets excused (fun _ => True) (nodeId id path) := by
    rw [nodeId]
    split
    · trivial
    · exact (Value.text?_meets short).bind fun _ _ => trivial
  cases written : nodeId id path with
  | ok ident => exact rfl
  | error f =>
    rw [written] at outcome
    exact outcome

/-- The identifier that is made: the text of the given one, or else the place in the tree. -/
theorem nodeId_eq {id : Value} {path : List String} {ident : String} (written : nodeId id path = .ok ident) :
    ident = if id.isNull || id.text == "" then placeId path else id.text := by
  rw [nodeId, Value.text?] at written
  cases null : id.isNull with
  | true =>
    rw [null, if_pos rfl] at written
    exact (Except.ok.inj written).symm
  | false =>
    rw [null, if_neg Bool.false_ne_true] at written
    split at written
    · cases written
    · exact (Except.ok.inj written).symm

/-- A placeholder is a layer of the node that it stands for. -/
theorem fallback_layer {n : EditorNode} {path : List String} {ident : String} {ms : List Node}
    (below : NodesOf R path 0 (n.children.getD []) ms) (written : nodeId n.id path = .ok ident) :
    LayerOf c R path n (fallback ident n.name ms) := by
  refine ⟨written, rfl, rfl, .inl rfl, .unknown, below, [], [], List.nil_sublist _, .nil, ?_⟩
  exact (Arranged.same.put (by decide : "data-unknown-component" ∈ ruleKeys) _).put
    (by decide : "children" ∈ ruleKeys) _

/-- What a node is read as, if it is known what the nodes inside it are read as. Whatever has to be imported
for it has been required. -/
theorem node_of (J : Judgement) (usual : c.ReadsAsDefault) (n : EditorNode) (inner : AllRead J c R n.inside)
    (excused : ∀ f, n.Causes f → f ∈ J.Excused) (path : List String) :
    J.Holds (node c path n) fun m => LayerOf c R path n m.layer ∧ J.Given m.layer.dependency := by
  obtain ⟨id, name, props, children, styles, extra⟩ := n
  have ends (key : String) (v : Value) (mem : (key, .mk v .endless) ∈ props) : .endlessSlot ∈ J.Excused :=
    excused _ (.endlessSlot mem)
  have inProps (path : List String) :=
    propValues_of usual (fun n mem => inner n (List.mem_append_left _ mem)) ⟨name, id⟩ path
      (fun _ _ _ mem asText long => excused _ (.longText mem asText long)) ends
  have inChildren : AllRead J c R (children.getD []) :=
    fun n mem => inner n (List.mem_append_right _ mem)
  have identified : J.Holds (liftM (Job.ofExcept (nodeId id path))) (nodeId id path = .ok ·) :=
    J.lift (.ofExcept (nodeId_meets path fun long => excused _ (.longId long)))
  -- A node is built by one of three ways: constructed, constructed and changed, or as a fallback. Each
  -- of them is settled by itself, and the rules then choose among them.
  rw [node.eq_def]
  dsimp -zeta only
  extract_lets given owner build usually context
  have constructed {component : String} {dependency : Dependency}
      (provided : Provided c name component dependency) : J.Holds (build component dependency)
        fun layer => LayerOf c R path (.mk id name props children styles extra) layer ∧
          layer.dependency = dependency := by
    refine J.bind identified fun ident => J.bind (inProps path) fun read => ?_
    have arranged (h : ∃ given, given.Sublist props ∧ List.Forall₂ (EntryOf R path) given read) :
        ∃ given read', given.Sublist props ∧ List.Forall₂ (EntryOf R path) given read' ∧
          Arranged read' read := by
      obtain ⟨given, left, entries⟩ := h
      exact ⟨given, read, left, entries, .same⟩
    obtain none | nil | ⟨n, r⟩ := children
    · exact J.pure fun h same => ⟨⟨same, rfl, rfl, .inr rfl, provided, .nil, arranged h⟩, rfl⟩
    · exact J.pure fun h same => ⟨⟨same, rfl, rfl, .inr rfl, provided, .nil, arranged h⟩, rfl⟩
    · have others : AllRead J c R r := fun n mem => inChildren n (by simp [mem])
      refine J.bind (inChildren n (by simp) _) fun first => ?_
      refine J.bind (nodes_of others path 1) fun rest => J.pure fun more holds h same => ?_
      exact ⟨⟨same, rfl, rfl, .inr rfl, provided, .cons holds more, arranged h⟩, rfl⟩
  have inUsual : J.Holds usually fun m =>
      LayerOf c R path (.mk id name props children styles extra) m.layer ∧
        J.Given m.layer.dependency := by
    unfold usually
    split
    · refine J.after (J.note _) fun _ => J.bind identified fun ident => ?_
      cases children with
      | none => exact J.pure fun same => ⟨fallback_layer .nil same, J.none⟩
      | some ns =>
        refine J.bind (nodes_of inChildren path 0) fun ms => J.pure fun below same => ?_
        exact ⟨fallback_layer below same, J.none⟩
    · next found =>
      refine J.bind (J.require _) fun _ => J.bind (constructed (.known found)) fun layer => ?_
      split
      · next change rule =>
        obtain ⟨prop, rfl⟩ := usual.change_eq rule
        refine J.bind (J.lift (promoteChange_arranges prop _ layer).completes) fun changed => J.pure ?_
        rintro ⟨props, rfl, arrange⟩ ⟨holds, same⟩ given
        exact ⟨holds.withProps arrange, same ▸ given⟩
      · refine J.pure ?_
        rintro ⟨holds, same⟩ given
        exact ⟨holds, same ▸ given⟩
  split
  · exact inUsual
  · next rule found =>
    obtain rfl := usual.rule_eq found
    have built : J.Holds (Catalogue.iconRule given context) fun m => ∃ m', m = some m' ∧
        LayerOf c R path (.mk id name props children styles extra) m'.layer ∧ J.Given m'.layer.dependency := by
      refine J.bind (J.require _) fun _ => J.bind (constructed (.icon _)) fun layer => J.pure ?_
      rintro ⟨holds, same⟩ given
      refine ⟨_, rfl, ?_, same ▸ given⟩
      exact holds.withProps fun _ arranged => arranged.put (by decide : "icon" ∈ ruleKeys) _
    refine J.bind built fun m => ?_
    cases m with
    | some m =>
      refine J.pure fun holds => ?_
      obtain ⟨m', same, holds⟩ := holds
      obtain rfl := Option.some.inj same
      exact holds
    | none => exact J.mono inUsual fun _ holds _ => holds

/-- What passes from the nodes inside a node to the node holds of every node that is read. -/
theorem Judgement.node_induction (J : Judgement) (usual : c.ReadsAsDefault)
    (step : ∀ path n layer, LayerOf c R path n layer → J.Given layer.dependency → R path n (.mk layer))
    {n : EditorNode} (excused : n.faults ⊆ J.Excused) (path : List String) :
    J.Holds (node c path n) (R path n) := by
  have everywhere := EditorNode.everywhere_excused excused
  induction n using EditorNode.induction generalizing path with
  | step n ih =>
    have inner : AllRead J c R n.inside := fun n' mem path =>
      ih n' mem (fun f deep => excused (.inside mem deep)) path (everywhere.inside n' mem)
    refine J.mono (node_of J usual n inner everywhere.here path) fun m holds => ?_
    obtain ⟨layer⟩ := m
    exact step path n layer holds.1 holds.2

theorem node_induction (usual : c.ReadsAsDefault)
    (step : ∀ path n layer, LayerOf c R path n layer → R path n (.mk layer)) {excused : Set Fault} {n : EditorNode}
    (sub : n.faults ⊆ excused) (path : List String) : Reads excused (node c path n) (R path n) :=
  (reading excused).node_induction usual (fun path n layer holds _ => step path n layer holds) sub path

section Pages

variable (R)

/-- What top-level nodes are read as, counted from `index` on: each as a page whose tree is what `R`
says, and which has the identifier of its tree. -/
inductive PagesOf : (index : Nat) → List EditorNode → List Page → Prop
  | nil {index : Nat} : PagesOf index [] []
  | cons {index : Nat} {n : EditorNode} {p : Page} {ns : List EditorNode} {ps : List Page}
      (tree : R [toString index] n p.root) (id : p.id = p.root.layer.id)
      (rest : PagesOf (index + 1) ns ps) : PagesOf index (n :: ns) (p :: ps)

variable {R} {index : Nat} {ns : List EditorNode} {ps : List Page}

theorem PagesOf.length_eq (h : PagesOf R index ns ps) : ps.length = ns.length := by
  induction h with
  | nil => rfl
  | cons _ _ _ ih => simp [ih]

theorem PagesOf.ids (h : PagesOf R index ns ps) : ∀ p ∈ ps, p.id = p.root.layer.id := by
  induction h with
  | nil => simp
  | cons _ id _ ih => exact List.forall_mem_cons.2 ⟨id, ih⟩

theorem PagesOf.at (h : PagesOf R index ns ps) {i : Nat} {n : EditorNode} {p : Page}
    (node : ns[i]? = some n) (page : ps[i]? = some p) : R [toString (index + i)] n p.root := by
  induction h generalizing i with
  | nil => cases node
  | cons tree _ _ ih =>
    cases i with
    | zero =>
      obtain rfl := Option.some.inj node
      obtain rfl := Option.some.inj page
      exact tree
    | succ i =>
      have later := ih node page
      rwa [Nat.add_right_comm, Nat.add_assoc] at later

theorem pages_of {excused : Set Fault} (h : AllRead (reading excused) c R ns) (used : List String) (index : Nat) :
    (pages c used index ns).Completes excused (PagesOf R index ns) := by
  induction ns generalizing used index with
  | nil => exact .pure .nil
  | cons n r ih =>
    refine .bind (h n (by simp) [toString index] []) fun found tree => ?_
    have rest := ih fun n mem => h n (by simp [mem])
    exact .bind (rest _ _) fun ps more => .pure (.cons tree rfl more)

/-- What is read from a schema: the fault of its shape, or one that its page nodes bring in, or what `R` says for each
of its page nodes. -/
theorem project_of (usual : c.ReadsAsDefault)
    (step : ∀ path n layer, LayerOf c R path n layer → R path n (.mk layer)) (schema : Value)
    (log : List Notice) :
    match Schema.read schema with
    | .error f => (project c schema log).1 = .error f
    | .ok ns => Job.Meets (faultsOf (pageRoots ns)) (fun p => PagesOf R 0 (pageRoots ns) p.pages)
      (project c schema log).1 := by
  have outcome := project_outcome c schema log
  cases read : Schema.read schema with
  | error f =>
    rw [read] at outcome
    exact outcome
  | ok ns =>
    rw [read] at outcome
    obtain ⟨said, outcome⟩ := outcome
    have all : AllRead (reading (faultsOf (pageRoots ns))) c R (pageRoots ns) := fun n mem =>
      node_induction usual step (faults_subset mem)
    have found := pages_of all [] 0 said
    rw [outcome]
    cases done : (pages c [] 0 (pageRoots ns) said).1 with
    | ok ps =>
      rw [done] at found
      exact found
    | error f =>
      rw [done] at found
      exact found

end Pages

end Reading

end Pagesmith
