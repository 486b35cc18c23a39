import Pagesmith.Component.Hooks
import Pagesmith.Proofs.Component.Imported
import Pagesmith.Proofs.Component.Slots
import Pagesmith.Proofs.Component.Success
import Pagesmith.Proofs.Component.Unbroken
import Pagesmith.Proofs.Module.Calls

/-!
The tags of a page and the imports of its module. Names are given out while the elements are written, one by
one; a binding that is there stays, so the tag of an element can be read off the module at the end: what stands
before its first dot is the name under which the header of the module binds what its node depends on.
-/

namespace Pagesmith

namespace Catalogue

variable {ν μ : Type} (f : ν → μ)

/-- A tag does not hang on the nodes in the properties. -/
theorem tag_map (rule : TagRule) (props : List (String × PropOf ν)) :
    tag rule (Table.mapValues (PropOf.map f) props) = tag rule props := by
  cases rule with
  | fixed => rfl
  | typography =>
    rw [tag, tag, Table.lookup_mapValues]
    cases props.lookup "type" with
    | none => rfl
    | some p =>
      cases p with
      | literal v => cases v <;> rfl
      | raw v => cases v <;> rfl
      | _ => rfl
  | icon =>
    rw [tag, tag, Table.lookup_mapValues]
    cases props.lookup "icon" with
    | none => rfl
    | some p => cases p <;> rfl

end Catalogue

namespace Text

theorem cutAt_whole {separator : Char} {text : List Char} (free : separator ∉ text) :
    cutAt separator text = (text, none) := by
  induction text with
  | nil => rfl
  | cons c r ih =>
    obtain ⟨other, free⟩ := List.ne_and_not_mem_of_not_mem_cons free
    rw [cutAt, if_neg (by simpa using other.symm), ih free]

theorem cutAt_append {separator : Char} {text : List Char} (free : separator ∉ text) (rest : List Char) :
    cutAt separator (text ++ separator :: rest) = (text, some rest) := by
  induction text with
  | nil => simp [cutAt]
  | cons c r ih =>
    obtain ⟨other, free⟩ := List.ne_and_not_mem_of_not_mem_cons free
    rw [List.cons_append, cutAt, if_neg (by simpa using other.symm), ih free]

end Text

namespace Component
open Build Pagesmith.Module Text

/-- What stands before the first dot of a tag. -/
def tagHead (tag : String) : String := String.ofList (cutAt '.' tag.toList).1

/-- The first dot of a tag and what follows it. -/
def tagRest (tag : String) : String :=
  match (cutAt '.' tag.toList).2 with
  | some rest => "." ++ String.ofList rest
  | none => ""

/-- A name in the place of what stood before the first dot. -/
theorem tag_renamed {name : String} (isName : IsName name) (tag : String) :
    tagHead (name ++ tagRest tag) = name ∧ tagRest (name ++ tagRest tag) = tagRest tag := by
  have free : '.' ∉ name.toList := fun mem => absurd (isName.chars _ mem) (by decide)
  rw [tagHead, tagRest, tagRest]
  cases (cutAt '.' tag.toList).2 with
  | none => simp [cutAt_whole free]
  | some rest => simp [String.toList_append, cutAt_append free]

theorem importedTag_sourced {d : Dependency} (sourced : d.source ≠ "") (tag : String) :
    importedTag tag d = (do
      let name ← addImport d (some (tagHead tag))
      pure (name ++ tagRest tag)) := by
  rw [importedTag, if_neg (by simpa using sourced), tagHead, tagRest]
  rcases cutAt '.' tag.toList with ⟨head, rest⟩
  cases rest with
  | none => simp
  | some rest => simp [String.append_assoc]

section Hooks

variable {w : Writer} {own : List (String × Hooks)}

/-- The hooks of a component do nothing to a module but write it. -/
def Hooks.Operate (h : Hooks) : Prop := ∀ desk, Operates (h.logic desk)

theorem ofRendering_operate (rule : Rendering) : (Hooks.ofRendering rule).Operate := by
  refine fun desk => operates_of_keeps fun I lasts => ?_
  simp only [Hooks.ofRendering]
  split
  · exact .bind (loadRows_lasts lasts _ _) fun _ => .pure _
  · exact .pure _

theorem hooks_operate (operate : ∀ h ∈ own, h.2.Operate) (node : NodeOf Node) : (w.hooks own node).Operate := by
  rw [Writer.hooks]
  split
  · next found => exact operate _ (Table.mem_of_lookup found)
  · exact ofRendering_operate _

section Lasts

variable {I : Module → Prop} (lasts : Lasts I)
include lasts

theorem call_lasts {h : Hooks} (operate : h.Operate) (node : NodeOf Node) : Keeps I (h.call node) :=
  .bind (.ofJob _) fun _ => .bind (.ofJob _) fun _ => .bind ((operate _).keeps lasts) fun _ => .pure _

/-- What lasts while a module is written lasts while the element of a node is. -/
theorem hookedElement_lasts (operate : ∀ h ∈ own, h.2.Operate) (depth : Nat) (n : Node) :
    Keeps I (hookedElement w own depth n) := by
  induction depth generalizing n with
  | zero => exact .ofJob _
  | succ depth ih =>
    let part (n : Node) : Part := ⟨fun _ => n.shown, hookedElement w own depth n⟩
    refine .bind (call_lasts lasts (hooks_operate operate _) _) fun ⟨tag, desk⟩ => ?_
    refine elementAs_keeps (eventFunction_lasts lasts w) (addImport_lasts lasts _) ?_ ?_ tag
    · intro x mem
      have inside : x ∈ (desk.node.map part).below := List.mem_append_right _ mem
      rw [NodeOf.below_map] at inside
      obtain ⟨n', -, rfl⟩ := List.mem_map.1 inside
      exact ih n'
    · intro e mem x inside
      obtain ⟨e', -, rfl⟩ := List.mem_map.1 mem
      rw [PropOf.nodes_map] at inside
      obtain ⟨n', -, rfl⟩ := List.mem_map.1 inside
      exact ih n'

end Lasts

end Hooks

/-- A node that is rendered: as its hooks leave it, with the tag that they give and the one of its element. -/
structure Placed where
  node : NodeOf Node
  given : String
  tag : String

/-- What a node imports: the source of its dependency, with the export that is taken between braces or the
default export, which an export called `default` is as well. -/
def Placed.binding (s : Placed) : String × String := bindingKey s.node.dependency (some (tagHead s.given))

/-- The tag that is written for a node, where these names are bound. Without a source it is the one that the hooks
give. -/
structure TagFor (bound : List ((String × String) × String)) (s : Placed) : Prop where
  plain : s.node.dependency.source = "" → s.tag = s.given
  imported : s.node.dependency.source ≠ "" → ∃ name, bound.lookup s.binding = some name ∧
    s.tag = name ++ tagRest s.given

/-- The hooks, called for the node, gave this tag and left this desk. -/
def Hooks.Gave (h : Hooks) (node : NodeOf Node) (tag : String) (desk : Desk) : Prop :=
  ∃ m log, (h.call node m log).1.1 = .ok (tag, desk)

section Tags

variable (w : Writer) (own : List (String × Hooks))

/-- The element that is written for a node, together with all nodes that are rendered in it, in order. The elements
in its slots and among its children are, one by one, those of the nodes that its hooks leave below it. -/
inductive Rendered : Node → Markup × List Placed → Prop
  | mk {n : Node} {given tag : String} {desk : Desk} {attributes : List Attribute} {children slots : List Markup}
    {parts : List (Markup × List Placed)} (gave : (w.hooks own n.layer).Gave n.layer given desk)
    (inSlots : ∀ x ∈ slots, InSlot w x attributes)
    (below : List.Forall₂ Rendered (writtenWith desk.node desk.written) parts)
    (elements : parts.map (·.1) = slots ++ children.filter Markup.isElement) :
    Rendered n (.element tag attributes children, ⟨desk.node, given, tag⟩ :: parts.flatMap (·.2))

/-- The element is written for the node, with tags for all nodes that are rendered in it. -/
def TaggedBy (bound : List ((String × String) × String)) (n : Node) (x : Markup) : Prop :=
  ∃ placed, Rendered w own n (x, placed) ∧ ∀ s ∈ placed, TagFor bound s

end Tags

section Walk

variable {w : Writer} {own : List (String × Hooks)} {bound : List ((String × String) × String)}

theorem TaggedBy.isElement {n : Node} {x : Markup} (h : TaggedBy w own bound n x) : x.isElement = true := by
  obtain ⟨placed, rendered, -⟩ := h
  cases rendered
  rfl

/-- Elements one by one, with the nodes that are rendered in each of them. -/
theorem exists_parts {ns : List Node} {xs : List Markup} (h : List.Forall₂ (TaggedBy w own bound) ns xs) :
    ∃ parts, List.Forall₂ (Rendered w own) ns parts ∧ parts.map (·.1) = xs ∧
      ∀ s ∈ parts.flatMap (·.2), TagFor bound s := by
  induction h with
  | nil => exact ⟨[], .nil, rfl, by simp⟩
  | @cons n x _ _ first _ ih =>
    obtain ⟨placed, rendered, tagged⟩ := first
    obtain ⟨parts, more, same, rest⟩ := ih
    refine ⟨(x, placed) :: parts, .cons rendered more, by rw [List.map_cons, same], fun s mem => ?_⟩
    obtain mem | mem := List.mem_append.1 (List.flatMap_cons ▸ mem)
    · exact tagged s mem
    · exact rest s mem

/-- A module does not come to be a part of `bound` by being written on. -/
theorem lasts_outside : Lasts fun m => ¬ m.bound <+: bound :=
  fun _ _ operation outside inside => outside ((operation_bound operation).trans inside)

theorem lookup_prefix {b b' : List ((String × String) × String)} (more : b <+: b') {key : String × String}
    {name : String} (found : b.lookup key = some name) : b'.lookup key = some name := by
  obtain ⟨rest, rfl⟩ := more
  rw [List.lookup_append, found, Option.some_or]

/-- An import gives the name that is bound in the end. -/
theorem addImport_foresees {d : Dependency} (sourced : d.source ≠ "") (wish : Option String) :
    (foreseeing fun m => m.bound <+: bound).Holds (addImport d wish) fun name =>
      bound.lookup (bindingKey d wish) = some name := by
  refine fun m => (addImport_ensures d wish m).mono ?_
  rintro r m' ⟨name, rfl, ⟨none, -, -⟩ | ⟨-, found, rfl⟩ | ⟨-, new, -, rfl⟩⟩
  · exact absurd none sourced
  · refine ⟨id, ?_⟩
    rintro _ ⟨⟩ inside
    exact lookup_prefix inside found
  · refine ⟨(List.prefix_append _ _).trans, ?_⟩
    rintro _ ⟨⟩ inside
    exact lookup_prefix inside (lookup_bind d new)

theorem importedTag_foresees (node : NodeOf Node) (given : String) :
    (foreseeing fun m => m.bound <+: bound).Holds (importedTag given node.dependency) fun tag =>
      TagFor bound ⟨node, given, tag⟩ := by
  by_cases source : node.dependency.source = ""
  · rw [importedTag, if_pos (by simpa using source)]
    exact Judgement.pure _ ⟨fun _ => rfl, absurd source⟩
  · rw [importedTag_sourced source]
    exact (foreseeing _).bind (addImport_foresees source _) fun name =>
      Judgement.pure _ fun found => ⟨(absurd · source), fun _ => ⟨name, found, rfl⟩⟩

/-- The element of a node is written with tags for all nodes in it, as the bindings are in the end. -/
theorem hookedElement_foresees (operate : ∀ h ∈ own, h.2.Operate) (depth : Nat) (n : Node) :
    (foreseeing fun m => m.bound <+: bound).Holds (hookedElement w own depth n) (TaggedBy w own bound n) := by
  let J := foreseeing fun m => m.bound <+: bound
  have events (key id : String) (actions : List Action) : J.Holds (eventFunction w key id actions) fun _ => True :=
    (eventFunction_lasts lasts_outside w key id actions).foresees
  have isElement : ∀ n x, TaggedBy w own bound n x → x.isElement = true := fun _ _ => TaggedBy.isElement
  induction depth generalizing n with
  | zero => exact J.ofJob fun log x failed => nomatch failed
  | succ depth ih =>
    let part (n : Node) : Part := ⟨fun _ => n.shown, hookedElement w own depth n⟩
    have called : J.Holds ((w.hooks own n.layer).call n.layer) fun r =>
        (w.hooks own n.layer).Gave n.layer r.1 r.2 :=
      (call_lasts lasts_outside (hooks_operate operate n.layer) n.layer).foresees_value
    refine J.bind called fun ⟨given, desk⟩ => ?_
    refine J.mono (elementAs_made events isElement (importedTag_foresees desk.node given)
      (classNameOf_keeps _ _).foresees (fun x _ => ih x) (fun _ _ x _ => ih x)) ?_
    rintro _ ⟨tag, plain, className, children, xs, rfl, tagged, -, -, inSlots, good⟩ gave
    obtain ⟨parts, below, same, rest⟩ := exists_parts good
    refine ⟨_, .mk gave (fun x mem => (inSlots x mem).mono (List.subset_append_left _ _)) below same, ?_⟩
    exact List.forall_mem_cons.2 ⟨tagged, rest⟩

end Walk

section Catalogue

variable (w : Writer)

/-- The rules of the catalogue leave a node as it is, with the tag and the properties that are written for it. -/
theorem gave_ofRendering {node : NodeOf Node} {given : String} {desk : Desk}
    (h : (Hooks.ofRendering (w.rule node)).Gave node given desk) :
    (∃ log, (Catalogue.tag (w.rule node).tag node.props log).1 = .ok given) ∧ desk.node = node ∧
      desk.written = renderedProps w Node.shown node := by
  obtain ⟨m, log, gave⟩ := h
  let Tagged (tag : String) : Prop := ∃ log, (Catalogue.tag (w.rule node).tag node.props log).1 = .ok tag
  have tag : ((Hooks.ofRendering (w.rule node)).tag ⟨node.props, [], node⟩ : Job _).Yields fun x =>
      Tagged x.1 ∧ x.2 = ⟨node.props, [], node⟩ :=
    .bind (P := Tagged) (fun log _ same => ⟨log, same⟩) fun _ tagged => .pure ⟨tagged, rfl⟩
  have delivers : Delivers (fun _ => True) ((Hooks.ofRendering (w.rule node)).call node) fun x =>
      Tagged x.1 ∧ x.2.node = node ∧ x.2.written = renderedProps w Node.shown node := by
    refine .bind (.ofJob tag) ?_
    rintro ⟨tag, _⟩ ⟨tagged, rfl⟩
    refine .bind (.ofJob (.pure rfl)) ?_
    rintro _ rfl
    refine .bind (V := fun x => x.2.node = node ∧
      Table.insertAll x.2.written (x.1.getD []) = renderedProps w Node.shown node) ?_ fun x left => .pure ⟨tagged, left⟩
    simp only [Hooks.ofRendering, renderedProps]
    cases rowsAddress (w.rule node) node with
    | none => exact .pure ⟨rfl, rfl⟩
    | some url =>
      have rows : Delivers (fun _ => True) (loadRows node.id url) (· = rowsState node.id) :=
        Keeps.delivers_value (fun _ _ _ => trivial) (loadRows_value node.id url)
      refine .bind rows ?_
      rintro _ rfl
      exact .pure ⟨rfl, rfl⟩
  exact (delivers m trivial log).2 _ gave

variable {w}

theorem call_ofRendering_bind {α : Type} (rule : Rendering) (node : NodeOf Node) (next : String × Desk → Build α) :
    (Hooks.ofRendering rule).call node >>= next = (do
      let tag ← Build.ofJob (Catalogue.tag rule.tag node.props)
      let written := Catalogue.written Node.shown rule.steps node.id node.props
      match rowsAddress rule node with
      | some url =>
        let state ← loadRows node.id url
        next (tag, ⟨node.props, Table.insert "dataSource" (.reference state) written, node⟩)
      | none => next (tag, ⟨node.props, written, node⟩)) := by
  have pure {β : Type} (b : β) : Build.ofJob (Pure.pure b) = Pure.pure b := rfl
  simp only [Hooks.call, Hooks.ofRendering, ofJob_bind, pure, bind_assoc, pure_bind]
  congr 1
  funext tag
  cases rowsAddress rule node with
  | none => rfl
  | some url =>
    simp only [bind_assoc, pure_bind]
    rfl

variable {n n' : Node} {r : Markup × List Placed}

theorem Rendered.self_mem (h : Rendered w [] n r) : ∃ s ∈ r.2, s.node = n.layer ∧
    ∃ log, (Catalogue.tag (w.rule n.layer).tag n.layer.props log).1 = .ok s.given := by
  cases h with
  | mk gave inSlots below elements =>
    obtain ⟨tagged, same, -⟩ := gave_ofRendering w gave
    exact ⟨_, List.mem_cons_self, same, tagged⟩

/-- Every node that is written with a rendered one is rendered in it, by the rules of the catalogue as it is. -/
theorem Rendered.below_mem (h : Rendered w [] n r) (mem : n' ∈ writtenBelow w Node.shown n.layer) :
    ∃ s ∈ r.2, s.node = n'.layer ∧
      ∃ log, (Catalogue.tag (w.rule n'.layer).tag n'.layer.props log).1 = .ok s.given := by
  cases h with
  | mk gave inSlots below elements =>
    obtain ⟨-, node, written⟩ := gave_ofRendering w gave
    rw [node, written] at below
    obtain ⟨k, inside, rfl⟩ := List.mem_iff_getElem.1 mem
    obtain ⟨s, own, same⟩ := Rendered.self_mem (below.get inside (below.length_eq ▸ inside))
    exact ⟨s, List.mem_cons_of_mem _ (List.mem_flatMap.2 ⟨_, List.getElem_mem _, own⟩), same⟩

/-- An element is written as usual, if those of the nodes below are. -/
theorem hookedElement_succ {depth : Nat} {n : Node}
    (same : ∀ x ∈ n.layer.below, hookedElement w [] depth x = element w x) :
    hookedElement w [] (depth + 1) n = element w n := by
  let part (x : Node) : Part := ⟨fun _ => x.shown, hookedElement w [] depth x⟩
  have parts (x : Node) (mem : x ∈ n.layer.below) : part x = partOf w x :=
    congrArg (Part.mk fun _ => x.shown) (same x mem)
  have node : n.layer.map part = n.layer.map (partOf w) := NodeOf.map_congr parts
  have props {written : List (String × PropOf Node)} (inside : Catalogue.AllNodes (· ∈ n.layer.below) written) :
      Table.mapValues (PropOf.map part) written = Table.mapValues (PropOf.map (partOf w)) written :=
    List.map_congr_left fun e mem => congrArg (Prod.mk e.1)
      (e.2.map_congr fun x carried => parts x (inside e mem x carried))
  let written := Catalogue.written Node.shown (w.rule n.layer).steps n.layer.id n.layer.props
  have inside : Catalogue.AllNodes (· ∈ n.layer.below) written :=
    Catalogue.written_allProps (Catalogue.isKept_nodes Node.shown _) _ _ (allNodes_below fun _ => id)
  have tag : Catalogue.tag (w.rule n.layer).tag (n.layer.map (partOf w)).props =
      Catalogue.tag (w.rule n.layer).tag n.layer.props := Catalogue.tag_map (partOf w) _ n.layer.props
  have image : Catalogue.written (fun p : Part => p.shown ()) (w.rule n.layer).steps n.layer.id
      (n.layer.map (partOf w)).props = Table.mapValues (PropOf.map (partOf w)) written :=
    Catalogue.written_map (partOf w) (fun _ => rfl) _ _ n.layer.props
  have rows : rowsAddress (w.rule n.layer) (n.layer.map (partOf w)) = rowsAddress (w.rule n.layer) n.layer :=
    rowsAddress_map (partOf w) _ _
  have rule : w.rule (n.layer.map (partOf w)) = w.rule n.layer := rfl
  have own : w.hooks [] n.layer = .ofRendering (w.rule n.layer) := rfl
  rw [element_eq, hookedElement, elementOf, own, call_ofRendering_bind, rule, tag]
  congr 1
  funext tag
  rw [writtenProps, rows]
  cases rowsAddress (w.rule n.layer) n.layer with
  | none => exact congrArg₂ (elementAs w tag) node ((props inside).trans image.symm)
  | some url =>
    simp only [bind_assoc, pure_bind]
    congr 1
    funext state
    refine congrArg₂ (elementAs w tag) node ?_
    have more : Catalogue.AllNodes (· ∈ n.layer.below) (Table.insert "dataSource" (.reference state) written) :=
      Catalogue.AllProps.insert (Q := fun p => ∀ x ∈ p.nodes, x ∈ n.layer.below) inside _ (by simp [PropOf.nodes])
    refine (props more).trans ?_
    rw [← Table.insert_mapValues]
    exact (congrArg (Table.insert "dataSource" _) image).symm

/-- Where no component has hooks of its own, elements are written as usual, from some depth on. -/
theorem hookedElement_usual (n : Node) :
    ∃ enough, ∀ depth, enough ≤ depth → hookedElement w [] depth n = element w n := by
  induction n using Node.induction with
  | step n ih =>
    have below (ns : List Node) (each : ∀ x ∈ ns, ∃ enough, ∀ depth, enough ≤ depth →
        hookedElement w [] depth x = element w x) :
        ∃ enough, ∀ depth, enough ≤ depth → ∀ x ∈ ns, hookedElement w [] depth x = element w x := by
      induction ns with
      | nil => exact ⟨0, by simp⟩
      | cons x r more =>
        obtain ⟨first, others⟩ := List.forall_mem_cons.1 each
        obtain ⟨enough, own⟩ := first
        obtain ⟨enough', rest⟩ := more others
        exact ⟨max enough enough', fun depth le => List.forall_mem_cons.2
          ⟨own depth (le_trans (le_max_left ..) le), rest depth (le_trans (le_max_right ..) le)⟩⟩
    obtain ⟨enough, same⟩ := below n.layer.below ih
    refine ⟨enough + 1, fun depth le => ?_⟩
    obtain ⟨depth, rfl⟩ := Nat.exists_eq_add_of_le' le
    exact hookedElement_succ (same _ (Nat.le_add_left ..))

theorem writeHooked_usual (w : Writer) (p : Page) :
    ∃ enough, ∀ depth, enough ≤ depth → writeHooked w [] depth p = writeMarkup w p := by
  obtain ⟨enough, same⟩ := @hookedElement_usual w p.root
  exact ⟨enough, fun depth le => congrArg (writePage w p) (same depth le)⟩

end Catalogue

/-- A page that is written completely has all nodes that are rendered in its markup, with their tags. -/
theorem writeHooked_renders (w : Writer) {own : List (String × Hooks)} (operate : ∀ h ∈ own, h.2.Operate)
    (depth : Nat) (p : Page) (m₀ : Module) :
    (writeHooked w own depth p).Ensures m₀ fun r m => r.toOption.isSome → ∃ root placed, m.markup = w.text root ∧
      Rendered w own p.root (root, placed) ∧ ∀ s ∈ placed, TagFor m.bound s := by
  have any {α : Type} (b : Build α) : Delivers (fun _ => True) b fun _ => True :=
    fun _ _ _ => ⟨trivial, fun _ _ => trivial⟩
  refine (any _).ensures_bind trivial fun _ m _ _ => ?_
  refine (any _).ensures_bind trivial fun _ m _ _ => ?_
  refine .bind fun log => ?_
  have seen := @hookedElement_foresees w own (hookedElement w own depth p.root m log).1.2.bound operate depth
    p.root m log
  generalize hookedElement w own depth p.root m log = last at seen ⊢
  obtain ⟨⟨r, m'⟩, log'⟩ := last
  cases r with
  | error f => exact fun done => nomatch done
  | ok root =>
    obtain ⟨placed, rendered, tagged⟩ := seen.2 root rfl (List.prefix_refl _)
    exact .modify fun _ => ⟨root, placed, rfl, rendered, tagged⟩

/-- The tag of a rendered node: what stands before its first dot is the name that the header binds for the
dependency of the node, and what follows is as its hooks give it. Without a source the whole tag is. -/
structure Resolved (m : Module) (s : Placed) : Prop where
  plain : s.node.dependency.source = "" → s.tag = s.given
  imported : s.node.dependency.source ≠ "" → (s.binding, tagHead s.tag) ∈ m.headerBindings
  rest : tagRest s.tag = tagRest s.given

/-- The header of a module resolves tags: it has the lines of its entries, which bind no name twice; every tag
stands for its node in it; and tags of imported nodes have the same head only if the same is imported. -/
structure Resolves (m : Module) (placed : List Placed) : Prop where
  lines : ∀ e ∈ m.headerEntries, Holds m.header e.line.toList
  names : (m.headerBindings.map (·.2)).Nodup
  each : ∀ s ∈ placed, Resolved m s
  apart : ∀ s ∈ placed, ∀ t ∈ placed, s.node.dependency.source ≠ "" → t.node.dependency.source ≠ "" →
    (tagHead s.tag = tagHead t.tag ↔ s.binding = t.binding)

section Resolving

variable {m : Module} (bound : WellBound m)
include bound

/-- The head of an imported tag is the name of its binding, for names have no dots. -/
theorem TagFor.head {s : Placed} (h : TagFor m.bound s) (sourced : s.node.dependency.source ≠ "") :
    m.bound.lookup s.binding = some (tagHead s.tag) ∧ tagRest s.tag = tagRest s.given := by
  obtain ⟨name, found, same⟩ := h.imported sourced
  obtain ⟨head, rest⟩ := tag_renamed (bound.names _ (Table.mem_of_lookup found)) s.given
  rw [same, head]
  exact ⟨found, rest⟩

theorem TagFor.resolved {s : Placed} (h : TagFor m.bound s) : Resolved m s where
  plain := h.plain
  imported sourced :=
    mem_headerBindings (bound.entries.mem_iff.2 (Table.mem_of_lookup (h.head bound sourced).1))
  rest := by
    by_cases source : s.node.dependency.source = ""
    · rw [h.plain source]
    · exact (h.head bound source).2

theorem resolves_of_tagged {placed : List Placed} (tagged : ∀ s ∈ placed, TagFor m.bound s) :
    Resolves m placed where
  lines _ := holds_line
  names := bound.header_nodup
  each s mem := (tagged s mem).resolved bound
  apart s mem t mem' sourced sourced' :=
    same_binding bound.apart ((tagged s mem).head bound sourced).1 ((tagged t mem').head bound sourced').1

end Resolving

/-- Whatever the components of a page are and whatever hooks they have, as long as these do nothing to the module but
write it: once the page is written, the import header of its module resolves the tags of all its elements. Where all
exports that are bound are called by identifiers, the text of the module is read as saying what the header binds. -/
theorem tags_resolve (w : Writer) (own : List (String × Hooks)) (operate : ∀ h ∈ own, h.2.Operate) (depth : Nat)
    (p : Page) (name : String) (log : List Notice) {m : Module}
    (written : (writeHooked w own depth p (new name) log).1 = (.ok (), m)) :
    ∃ root placed, m.markup = w.text root ∧ Rendered w own p.root (root, placed) ∧ Resolves m placed ∧
      ((∀ b ∈ m.bound, IsName b.1.2) → ∀ title, ∃ lines, Script.readImports (m.text title) = some lines ∧
        lines.flatMap Script.ImportLine.bindings = m.headerBindings) := by
  have root : Keeps WellBound (hookedElement w own depth p.root) :=
    hookedElement_lasts lasts_wellBound operate depth p.root
  have bound : WellBound (writeHooked w own depth p (new name) log).1.2 :=
    writePage_lasts lasts_wellBound root w p _ (wellBound_new name) log
  have renders := writeHooked_renders w operate depth p (new name) log
  rw [written] at bound renders
  obtain ⟨root, placed, markup, rendered, tagged⟩ := renders rfl
  exact ⟨root, placed, markup, rendered, resolves_of_tagged bound tagged, bound.readBindings⟩

/-- An icon of this name, as it is read. -/
def iconNode (id icon : String) : Node :=
  .mk ⟨id, icon, Catalogue.iconImport (some icon), [("icon", .literal (.str icon))], "Icon", some [], none, none⟩

/-- A page with an icon beside another component. -/
def iconPage (icon : String) (beside : Node) : Page :=
  { id := "1", fileName := "index", dependencies := [], states := [], methods := [], title := none
    root := .mk ⟨"1", "Page", ⟨"@/components/Page", none, none, false, none⟩, [], "Page",
      some [iconNode "2" icon, beside], none, none⟩ }

/-- A page with a button and an icon that is called like it. -/
def buttonIconPage : Page :=
  iconPage "Button"
    (.mk ⟨"3", "Button", Catalogue.libraryImport (some "Button") none, [], "Button", some [], none, none⟩)

/-- Hooks of a button: it is disabled until what is imported under the same name says otherwise. -/
def guardedButton : Hooks where
  tag desk := pure ("Button", desk)
  props desk := pure (desk.props, desk)
  logic desk := do
    let name ← addImport ⟨"@/guards", some "Button", none, true, none⟩ none
    pure (some [("disabled", .reference name)], desk)

theorem guardedButton_operate : guardedButton.Operate := fun _ =>
  operates_of_keeps fun _ lasts => .bind (addImport_lasts lasts _ _) fun _ => .pure _

theorem buttonIcon_resolved : (∀ h ∈ [("Button", guardedButton)], h.2.Operate) ∧
    ∃ m, (writeHooked defaultWriter [("Button", guardedButton)] 3 buttonIconPage (new "Index") []).1 = (.ok (), m) ∧
      ((("antd", "Button"), "Button_3") ∈ m.headerBindings ∧ (("@/guards", "Button"), "Button_2") ∈ m.headerBindings ∧
        ((Catalogue.iconPackage, "Button"), "Button") ∈ m.headerBindings) ∧
      ∃ root placed, m.markup = defaultWriter.text root ∧
        Rendered defaultWriter [("Button", guardedButton)] buttonIconPage.root (root, placed) ∧ Resolves m placed := by
  have operate : ∀ h ∈ [("Button", guardedButton)], h.2.Operate :=
    List.forall_mem_singleton.2 guardedButton_operate
  have completes : (writeHooked defaultWriter [("Button", guardedButton)] 3 buttonIconPage
      (new "Index") []).1.1.toBool = true := by
    decide +kernel
  have names : (writeHooked defaultWriter [("Button", guardedButton)] 3 buttonIconPage
      (new "Index") []).1.2.headerBindings =
      [(("react", "default"), "React"), ((Catalogue.iconPackage, "Button"), "Button"),
        (("antd", "Button"), "Button_3"), (("@/components/Page", "default"), "Page"),
        (("@/guards", "Button"), "Button_2")] := by
    decide +kernel
  refine ⟨operate, ?_⟩
  rcases written : (writeHooked defaultWriter [("Button", guardedButton)] 3 buttonIconPage (new "Index") []).1
    with ⟨r, m⟩
  rw [written] at completes names
  cases r with
  | error f => cases completes
  | ok _ =>
    obtain ⟨root, placed, markup, rendered, resolves, -⟩ := tags_resolve _ _ operate _ _ _ _ written
    have names : m.headerBindings = _ := names
    refine ⟨m, rfl, ⟨?_, ?_, ?_⟩, root, placed, markup, rendered, resolves⟩
    · simp [names]
    · simp [names]
    · simp [names]

/-- Hooks of a button that take all imports out of the module. -/
def forgetfulButton : Hooks where
  tag desk := pure ("Button", desk)
  props desk := pure (desk.props, desk)
  logic desk := do
    modify fun m => { m with imports := [] }
    pure (none, desk)

/-- A page with a star and a button. -/
def starButtonPage : Page :=
  iconPage "Star" (.mk ⟨"3", "Button", Catalogue.libraryImport (some "Button") none, [], "Button", some [], none, none⟩)

/-- A block, as it is read. -/
def containerNode (id : String) : Node := .mk ⟨id, "div", Dependency.none, [], "Container", some [], none, none⟩

/-- A page with a block and an icon that is called like the tag of a block. -/
def divIconPage : Page := iconPage "div" (containerNode "3")

/-- A tag without a source is none of the names that are given out, and one of them may meet it; and where hooks do
more to a module than write it, the name of a tag may be bound no longer. -/
theorem tags_unresolved :
    (∃ m, (writeHooked defaultWriter [] 3 divIconPage (new "Index") []).1 = (.ok (), m) ∧
      ∃ root placed, m.markup = defaultWriter.text root ∧
        Rendered defaultWriter [] divIconPage.root (root, placed) ∧
        ∃ s ∈ placed, ∃ t ∈ placed, s.node.dependency.source ≠ t.node.dependency.source ∧
          tagHead s.tag = tagHead t.tag) ∧
    (writeHooked defaultWriter [("Button", forgetfulButton)] 3 starButtonPage (new "Index") []).1.2.markup =
      "<Page>\n  <Star />\n  <Button />\n</Page>" ∧
    (writeHooked defaultWriter [("Button", forgetfulButton)] 3 starButtonPage (new "Index") []).1.2.headerBindings =
      [(("react", "default"), "React"), (("antd", "Button"), "Button")] := by
  refine ⟨?_, by decide +kernel, by decide +kernel⟩
  have completes : (writeHooked defaultWriter [] 3 divIconPage (new "Index") []).1.1.toBool = true := by
    decide +kernel
  have icon : bindingKey (iconNode "2" "div").layer.dependency (some (tagHead "div")) =
      (Catalogue.iconPackage, "div") := by decide
  have bound : (writeHooked defaultWriter [] 3 divIconPage (new "Index") []).1.2.bound.lookup
      (Catalogue.iconPackage, "div") = some "div" := by
    decide +kernel
  have renders := @writeHooked_renders defaultWriter [] (by simp) 3 divIconPage (new "Index") []
  rcases written : (writeHooked defaultWriter [] 3 divIconPage (new "Index") []).1 with ⟨r, m⟩
  rw [written] at completes bound renders
  cases r with
  | error f => cases completes
  | ok _ =>
    obtain ⟨root, placed, markup, rendered, tagged⟩ := renders rfl
    have below : writtenBelow defaultWriter Node.shown divIconPage.root.layer =
      [iconNode "2" "div", containerNode "3"] := by rfl
    obtain ⟨s, inside, node, _, given⟩ := rendered.below_mem (below ▸ List.mem_cons_self)
    obtain ⟨t, inside', node', _, given'⟩ :=
      rendered.below_mem (below ▸ List.mem_cons_of_mem _ List.mem_cons_self)
    have given : s.given = "div" := (Except.ok.inj given).symm
    have given' : t.given = "div" := (Except.ok.inj given').symm
    have plain : t.tag = "div" := ((tagged t inside').plain (by rw [node']; rfl)).trans given'
    have imported : s.tag = "div" := by
      obtain ⟨name, found, same⟩ := (tagged s inside).imported (by rw [node]; decide)
      rw [Placed.binding, node, given, icon, bound] at found
      obtain rfl := Option.some.inj found
      rw [same, given]
      decide
    exact ⟨m, rfl, root, placed, markup, rendered, s, inside, t, inside', by rw [node, node']; decide,
      by rw [imported, plain]⟩

end Component
end Pagesmith
