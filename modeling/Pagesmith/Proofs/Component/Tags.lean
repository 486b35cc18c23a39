import Pagesmith.Proofs.Component.Emission
import Pagesmith.Proofs.Component.Unmarked

/-!
Tags in the markup of a page. An element without children is one tag, another one two, and so is the fragment
around several nodes in a slot. Where the data of the nodes brings no opening angle bracket of its own, the
markup has exactly one for each tag.
-/

namespace Pagesmith

namespace PropOf

variable {ν μ : Type}

/-- Written as children, the value is at least one child. -/
def fills : PropOf ν → Bool
  | .literal v => !v.isBlank
  | .node _ | .reference _ | .expression _ | .function _ => true
  | .many items => (PropOf.many items).isSlotList
  | .action _ | .raw _ => false

/-- The tags of the fragment that the value stands in as an attribute. -/
def fragmentTags (p : PropOf ν) : Nat := if p.isSlotList then 2 else 0

/-- The value is no code, and what it refers to holds no opening angle bracket. -/
def IsUnmarked : PropOf ν → Prop
  | .expression _ | .function _ => False
  | .reference name => Text.angles name = 0
  | _ => True

theorem isUnmarked_map (f : ν → μ) (p : PropOf ν) : (p.map f).IsUnmarked ↔ p.IsUnmarked := by
  cases p <;> exact Iff.rfl

theorem isKept_unmarked (showNode : ν → String) :
    Catalogue.IsKept showNode (IsUnmarked : PropOf ν → Prop) where
  whole _ _ := trivial
  classify p h := by
    cases p with
    | many items =>
      rw [Catalogue.classify]
      split <;> trivial
    | raw => trivial
    | _ => exact h
  listed _ _ := trivial

theorem slotNodes_slotList {p : PropOf ν} (h : p.isSlotList = true) : p.slotNodes.isEmpty = false := by
  cases p with
  | many items =>
    simp only [isSlotList, Bool.and_eq_true] at h
    obtain ⟨given, all⟩ := h
    rw [slotNodes, if_pos all]
    cases items with
    | nil => cases given
    | cons q r =>
      rw [List.all_cons, Bool.and_eq_true] at all
      cases q with
      | node n => rfl
      | _ => cases all.1
  | _ => cases h

theorem isActionList_slotList {p : PropOf ν} (h : p.isSlotList = true) : p.isActionList = false := by
  cases p with
  | many items =>
    cases items with
    | nil => cases h
    | cons q r => cases q <;> simp_all [isSlotList, isActionList, node?, action?]
  | _ => cases h

end PropOf

/-- The tag is found without bringing in an opening angle bracket. -/
def TagRule.IsUnmarked : TagRule → Prop
  | .fixed tag => Text.angles tag = 0
  | .typography | .icon => True

instance (rule : TagRule) : Decidable rule.IsUnmarked :=
  match rule with
  | .fixed tag => inferInstanceAs (Decidable (Text.angles tag = 0))
  | .typography | .icon => isTrue trivial

namespace Component
open Build PropOf Text Pagesmith.Module

section Counting

variable {ν : Type}

/-- The tags that are written for a node itself: two around children, or else one that closes itself, and two
for each fragment around the nodes in one of its slots. -/
def ownTags (w : Writer) (showNode : ν → String) (layer : NodeOf ν) : Nat :=
  let written := renderedProps w showNode layer
  (if listsChildren layer || (givenProp "children" written).any fills then 2 else 1) +
    ((attributeProps written).map fun e => e.2.fragmentTags).sum

/-- The tags that are written for a tree, those in slots included. -/
def tags (w : Writer) (n : Node) : Nat :=
  ownTags w Node.shown n.layer +
    ((writtenBelow w Node.shown n.layer).attach.map fun m => tags w m.1).sum
termination_by sizeOf n
decreasing_by exact Node.sizeOf_below (writtenBelow_subset w Node.shown n.layer m.2)

theorem tags_eq (w : Writer) (n : Node) : tags w n =
    ownTags w Node.shown n.layer + ((writtenBelow w Node.shown n.layer).map (tags w)).sum := by
  rw [tags, List.attach_map_val (f := tags w)]

-- A page, a fragment and two cards in it: the cards and the page close themselves.
example :
    let card : Node := .mk ⟨"1", "Card", Dependency.none, [], "Card", none, none, none⟩
    let both : List (String × PropOf Node) := [("extra", .many [.node card, .node card])]
    tags ⟨.empty, [], 80⟩
      (.mk ⟨"0", "Page", Dependency.none, both, "Page", none, none, none⟩) = 5 := by
  cbv

end Counting

section Walk

variable {ν : Type} {f : ν → Part} {k : ν → Nat}

/-- Writing the node gives markup with this many opening angle brackets. -/
def Counted (f : ν → Part) (k : ν → Nat) (n : ν) : Prop :=
  Delivers Unmarked (f n).write fun m => m.angles = k n

/-- The opening angle brackets of attributes. -/
def attributeAngles (attributes : List Attribute) : Nat := (attributes.map fun a => angles a.render).sum

theorem writeParts_tags {ns : List ν} (parts : ∀ n ∈ ns, Counted f k n) :
    Delivers Unmarked (writeAll (ns.map f)) fun ms =>
      ms.isEmpty = ns.isEmpty ∧ (ms.map Markup.angles).sum = (ns.map k).sum := by
  induction ns with
  | nil => exact .pure ⟨rfl, rfl⟩
  | cons n r ih =>
    obtain ⟨first, rest⟩ := List.forall_mem_cons.1 parts
    refine Delivers.bind first fun m here => .bind (ih rest) fun ms more => .pure ?_
    simp [here, more]

/-- The nodes of a slot list give at least one element. -/
theorem writeSlots_tags {p : PropOf ν} (slot : p.isSlotList = true) (parts : ∀ n ∈ p.nodes, Counted f k n) :
    Delivers Unmarked (writeAll (p.slotNodes.map f)) fun ms =>
      ms.isEmpty = false ∧ (ms.map Markup.angles).sum = (p.slotNodes.map k).sum := by
  have written := writeParts_tags fun n mem => parts n (p.slotNodes_subset mem)
  rwa [slotNodes_slotList slot] at written

theorem angles_text (w : Writer) (m : Markup) : angles (w.text m) = m.angles := Markup.angles_render _ 0 m

theorem angles_fragment {ms : List Markup} (given : ms.isEmpty = false) :
    (Markup.element "" [] ms).angles = 2 + (ms.map Markup.angles).sum := by
  rw [Markup.angles, Markup.anglesAll_eq, given]
  rfl

variable {w : Writer} (unmarked : ∀ kind, (w.handlers.get kind).IsUnmarked)

section Values

variable {p : PropOf ν} (plain : p.IsUnmarked) (parts : ∀ n ∈ p.nodes, Counted f k n)
include plain parts

include unmarked in
theorem propAttribute_tags (id : String) {key : String} (free : angles key = 0) :
    Delivers Unmarked (propAttribute w id key (p.map f)) fun a =>
      attributeAngles a.toList = p.fragmentTags + (p.slotNodes.map k).sum := by
  have one {code : String} {n : Nat} (brackets : angles code = n) :
      attributeAngles (some (⟨key, .code code⟩ : Attribute)).toList = n := by
    simp [attributeAngles, Markup.angles_code, free, brackets]
  have event (actions : List Action) : Delivers Unmarked
      (do return some (⟨key, .code (← eventFunction w key id actions)⟩ : Attribute))
      fun a => attributeAngles a.toList = 0 :=
    .bind (eventFunction_unmarked unmarked rfl key id actions) fun name isName => .pure (one isName.angles)
  cases p with
  | literal v =>
    refine .bind (.ofJob (Markup.literalAttribute_angles key v)) fun a same => .pure ?_
    simp [attributeAngles, same, free, fragmentTags, isSlotList, slotNodes]
  | reference name => exact .pure (one plain)
  | expression | function => cases plain
  | action a => exact event [a]
  | node n =>
    refine .bind (parts n (by simp [nodes])) fun m counted => .pure ?_
    refine one ?_
    rw [angles_text, counted]
    simp [fragmentTags, isSlotList, slotNodes]
  | many items =>
    have actionList := isActionList_map f (.many items)
    have slotList := isSlotList_map f (.many items)
    have slots := slotNodes_map f (.many items)
    simp only [PropOf.map] at actionList slotList slots
    simp only [PropOf.map, propAttribute, actionList, slotList, slots]
    split
    · next asks =>
      have other : (PropOf.many items).isSlotList = false := by
        by_contra slot
        rw [isActionList_slotList (by simpa using slot)] at asks
        cases asks
      rw [fragmentTags, other, slotNodes_other other]
      exact event _
    · split
      · next slot =>
        refine .bind (writeSlots_tags slot parts) fun ms counted => .pure (one ?_)
        rw [angles_text, angles_fragment counted.1, counted.2, fragmentTags, if_pos slot]
      · next neither =>
        have other : (PropOf.many items).isSlotList = false := by simpa using neither
        rw [fragmentTags, other, slotNodes_other other]
        exact .bind (Keeps.note _).delivers fun _ _ => .pure rfl
  | raw v => exact .bind (Keeps.note _).delivers fun _ _ => .pure rfl

theorem childrenOf_tags (id : String) : Delivers Unmarked (childrenOf id (p.map f)) fun ms =>
    ms.isEmpty = !p.fills ∧ (ms.map Markup.angles).sum = (p.slotNodes.map k).sum := by
  have ignored {n : Notice} (slotless : p.fills = false ∧ p.slotNodes = []) : Delivers Unmarked
      (do Build.note n; pure ([] : List Markup)) fun ms =>
        ms.isEmpty = !p.fills ∧ (ms.map Markup.angles).sum = (p.slotNodes.map k).sum :=
    .bind (Keeps.note _).delivers fun _ _ => .pure (by simp [slotless.1, slotless.2])
  cases p with
  | literal v =>
    refine .bind (.ofJob (Markup.literalChild_angles v)) fun child written => .pure ?_
    obtain ⟨given, free⟩ := written
    cases child with
    | none => exact ⟨by simpa [fills] using given, rfl⟩
    | some m => exact ⟨by simpa [fills] using given, by simpa [slotNodes] using free m rfl⟩
  | node n =>
    have one : Delivers Unmarked (writeAll ([n].map f)) _ := writeParts_tags (by simpa [nodes] using parts)
    exact one
  | reference name =>
    refine .pure ⟨rfl, ?_⟩
    rw [IsUnmarked] at plain
    simp [slotNodes, Markup.angles, plain]
  | expression | function => cases plain
  | many items =>
    have slotList := isSlotList_map f (.many items)
    have slots := slotNodes_map f (.many items)
    simp only [PropOf.map] at slotList slots
    simp only [PropOf.map, childrenOf, slotList, slots]
    split
    · next slot =>
      rw [fills, slot]
      exact writeSlots_tags slot parts
    · next other =>
      have other : (PropOf.many items).isSlotList = false := by simpa using other
      exact ignored ⟨other, slotNodes_other other⟩
  | action | raw => exact ignored ⟨rfl, rfl⟩

end Values

include unmarked in
theorem propAttributes_tags (id : String) {props : List (String × PropOf ν)}
    (entries : ∀ e ∈ props, angles e.1 = 0 ∧ e.2.IsUnmarked)
    (parts : Catalogue.AllNodes (Counted f k) props) :
    Delivers Unmarked (propAttributes w id (Table.mapValues (PropOf.map f) props)) fun as =>
      attributeAngles as = (props.map fun e => e.2.fragmentTags).sum +
        ((props.flatMap fun e => e.2.slotNodes).map k).sum := by
  induction props with
  | nil => exact .pure rfl
  | cons e r ih =>
    obtain ⟨⟨free, plain⟩, rest⟩ := List.forall_mem_cons.1 entries
    obtain ⟨own, others⟩ := List.forall_mem_cons.1 parts
    refine .bind (propAttribute_tags unmarked plain own id free) fun a first => ?_
    refine .bind (ih rest others) fun as more => .pure ?_
    simp only [attributeAngles] at first more ⊢
    simp only [List.map_append, List.sum_append, first, more, List.map_cons, List.sum_cons, List.flatMap_cons]
    omega

theorem angles_styledClassName {cssClass : String} (free : angles cssClass = 0) {p : Option (PropOf Part)}
    (plain : ∀ q ∈ p, q.IsUnmarked) {a : Attribute} (written : styledClassName cssClass p = .ok a) :
    angles a.render = 0 := by
  have own : angles ("styles." ++ cssClass) = 0 := by
    rw [angles_append, free]
    rfl
  have alone : angles (⟨"className", .code ("styles." ++ cssClass)⟩ : Attribute).render = 0 := by
    rw [Markup.angles_code, own]
    rfl
  have beside {given : String} (none : angles given = 0) : angles (⟨"className",
      .code ("[" ++ given ++ ", " ++ ("styles." ++ cssClass) ++ "].join(\" \")")⟩ : Attribute).render = 0 := by
    rw [Markup.angles_code, angles_append, angles_append, angles_append, angles_append, own, none]
    rfl
  obtain rfl | ⟨g, given, rfl⟩ := styledClassName_cases written
  · exact alone
  · cases given with
    | literal => exact beside (Script.angles_stringLiteral _)
    | reference => exact beside (plain _ rfl)
    | expression => exact (plain _ rfl).elim

theorem plainClassName_angles {p : PropOf Part} (plain : p.IsUnmarked) :
    (plainClassName p).Yields fun a => attributeAngles a.toList = 0 := by
  cases p with
  | literal v =>
    refine .bind (Markup.literalAttribute_angles "className" v) fun a same => .pure ?_
    simp only [attributeAngles, Option.toList_some, List.map_cons, List.map_nil, same]
    rfl
  | reference name =>
    refine .pure ?_
    simp only [attributeAngles, Option.toList_some, List.map_cons, List.map_nil, Markup.angles_code,
      show angles name = 0 from plain]
    rfl
  | expression | function => cases plain
  | _ => exact .pure rfl

theorem classNameOf_tags {layer : NodeOf Part} (unstyled : layer.cssClass = none) {p : Option (PropOf Part)}
    (plain : ∀ q ∈ p, q.IsUnmarked) :
    Delivers Unmarked (classNameOf layer p) fun a => attributeAngles a.toList = 0 := by
  refine .get fun m h => ?_
  rw [unstyled]
  split
  · next cssClass found =>
    rw [show givenText none = none from rfl, Option.or_none] at found
    have isName : IsName cssClass := h.classes _ (Table.mem_of_lookup (Option.filter_eq_some_iff.1 found).1)
    refine .bind (.ofJob (.ofExcept fun a written => written)) fun a written => .pure ?_
    simp [attributeAngles, angles_styledClassName isName.angles plain written]
  · cases p with
    | none => exact .pure rfl
    | some q => exact .ofJob (plainClassName_angles (plain q rfl))

theorem elementChildren_tags {layer : NodeOf ν} {written : List (String × PropOf ν)}
    (entries : ∀ e ∈ written, e.2.IsUnmarked) (children : ∀ n ∈ layer.children.getD [], Counted f k n)
    (parts : Catalogue.AllNodes (Counted f k) written) :
    Delivers Unmarked (elementChildren (layer.map f) (Table.mapValues (PropOf.map f) written)) fun ms =>
      (ms.isEmpty = !(listsChildren layer || (givenProp "children" written).any fills)) ∧
      (ms.map Markup.angles).sum = ((if listsChildren layer then layer.children.getD []
        else ((givenProp "children" written).map PropOf.slotNodes).getD []).map k).sum := by
  have lists := listsChildren_map f layer
  rw [elementChildren, givenProp_map]
  split
  · next listed =>
    have known : listsChildren layer = true := by rw [← lists, listsChildren, listed]
    obtain ⟨ns, given, same⟩ := Option.map_eq_some_iff.1 listed
    rw [given] at children ⊢
    have all := writeParts_tags children
    have some : ns.isEmpty = false := by rw [← List.isEmpty_map, same, List.isEmpty_cons]
    rw [Option.getD_some, same, some] at all
    rwa [known]
  · next found unlisted =>
    have other : listsChildren layer = false := by rw [← lists, listsChildren_eq_false unlisted]
    obtain ⟨p, given, rfl⟩ := Option.map_eq_some_iff.1 found
    rw [other, given]
    have mem := givenProp_mem given
    exact childrenOf_tags (entries _ mem) (parts _ mem) layer.id
  · next none unlisted =>
    have other : listsChildren layer = false := by rw [← lists, listsChildren_eq_false unlisted]
    rw [other, Option.map_eq_none_iff.1 none]
    exact .pure ⟨rfl, rfl⟩

theorem tag_angles {rule : TagRule} (h : rule.IsUnmarked) (props : List (String × PropOf ν)) :
    (Catalogue.tag rule props).Yields fun tag => angles tag = 0 := by
  cases rule with
  | fixed tag => exact .pure h
  | icon => exact .pure (angles_isIdentifier (Catalogue.iconName_isIdentifier _))
  | typography =>
    have known (kind : String) : angles ((Catalogue.typographyTags.lookup kind).getD "Typography") = 0 := by
      have all : ∀ e ∈ Catalogue.typographyTags, angles e.2 = 0 := by decide
      cases found : Catalogue.typographyTags.lookup kind with
      | none => rfl
      | some tag => exact all _ (Table.mem_of_lookup found)
    rw [Catalogue.tag, Catalogue.typographyTag.eq_def]
    split
    · exact .pure rfl
    · exact .pure rfl
    · exact .pure rfl
    · exact .pure (known _)
    · exact .bind (.any _) fun _ _ => .pure rfl
    · exact .bind (.any _) fun _ _ => .pure rfl

theorem importedTag_angles {d : Dependency} (supplied : d.IsSupplied) {tag : String} (free : angles tag = 0) :
    Delivers Unmarked (importedTag tag d) fun tag => angles tag = 0 := by
  rw [importedTag]
  split
  · exact .pure free
  · refine .bind (addImport_unmarked supplied _) fun name isName => .pure ?_
    split
    · next rest found =>
      have inside : angles (String.ofList rest) = 0 := by
        refine angles_free fun mem => ?_
        rw [String.toList_ofList] at mem
        exact List.count_eq_zero.1 free (mem_cutAt found mem)
      rw [angles_append, angles_append, isName.angles, inside]
      rfl
    · exact isName.angles

/-- What the layer says of itself brings no opening angle bracket into the module. -/
structure UnmarkedLayer (w : Writer) (layer : NodeOf ν) : Prop where
  tag : (w.rule layer).tag.IsUnmarked
  supplied : layer.dependency.IsSupplied
  unstyled : layer.cssClass = none
  entries : ∀ e ∈ layer.props, angles e.1 = 0 ∧ e.2.IsUnmarked

theorem renderedProps_unmarked {showNode : ν → String} {layer : NodeOf ν} (own : UnmarkedLayer w layer) :
    ∀ e ∈ renderedProps w showNode layer, angles e.1 = 0 ∧ e.2.IsUnmarked := by
  have added : ∀ key ∈ Catalogue.addedKeys, angles key = 0 := by decide
  have keys : ∀ e ∈ Catalogue.written showNode (w.rule layer).steps layer.id layer.props, angles e.1 = 0 := by
    intro e mem
    obtain given | new := Catalogue.written_keys _ _ e mem
    · obtain ⟨e', found, same⟩ := List.mem_map.1 given
      rw [← same]
      exact (own.entries e' found).1
    · exact added _ new
  have values : Catalogue.AllProps IsUnmarked (renderedProps w showNode layer) :=
    renderedProps_allProps w (isKept_unmarked showNode) (isName_toIdentifier _).angles fun e mem =>
      (own.entries e mem).2
  refine fun e mem => ⟨?_, values e mem⟩
  rw [renderedProps] at mem
  split at mem
  · obtain rfl | mem := Table.eq_or_mem_of_mem_insert mem
    · exact added "dataSource" (by decide)
    · exact keys e mem
  · exact keys e mem

theorem writtenProps_unmarked (layer : NodeOf Part) : Delivers Unmarked (writtenProps (w.rule layer) layer)
    (· = renderedProps w (fun p => p.shown ()) layer) :=
  (writtenProps_keeps fun url _ => loadRows_unmarked layer.id url).delivers_value (writtenProps_value w layer)

include unmarked in
/-- A node brings one opening angle bracket for each of its own tags, and those of the nodes written with it. -/
theorem elementOf_tags {showNode : ν → String} (same : ∀ n, (f n).shown () = showNode n) {layer : NodeOf ν}
    (own : UnmarkedLayer w layer) (below : ∀ n ∈ layer.below, Counted f k n) :
    Delivers Unmarked (elementOf w (layer.map f)) fun m =>
      m.angles = ownTags w showNode layer + ((writtenBelow w showNode layer).map k).sum := by
  have entries : ∀ e ∈ renderedProps w showNode layer, angles e.1 = 0 ∧ e.2.IsUnmarked :=
    renderedProps_unmarked own
  have parts := renderedProps_allNodes w showNode (allNodes_below below)
  have children : ∀ n ∈ layer.children.getD [], Counted f k n :=
    fun n mem => below n (List.mem_append_right _ mem)
  have rendered : renderedProps w (fun p : Part => p.shown ()) (layer.map f) =
      Table.mapValues (PropOf.map f) (renderedProps w showNode layer) := renderedProps_map w f same layer
  have rule : (w.rule (layer.map f)).tag.IsUnmarked := own.tag
  refine .bind (.ofJob (tag_angles rule _)) fun tag free => ?_
  refine .bind (writtenProps_unmarked (layer.map f)) fun written known => ?_
  rw [known, rendered, elementAs, attributeProps_map, givenProp_map]
  refine .bind (importedTag_angles (d := (layer.map f).dependency) own.supplied free) fun tag free => ?_
  refine .bind (propAttributes_tags unmarked layer.id (fun e mem => entries e (mem_attributeProps mem))
    fun e mem => parts e (mem_attributeProps mem)) fun plain attributes => ?_
  refine .bind (classNameOf_tags (show (layer.map f).cssClass = none from own.unstyled) ?_) fun className none => ?_
  · intro q mem
    obtain ⟨p, given, rfl⟩ := Option.map_eq_some_iff.1 mem
    exact (isUnmarked_map f p).2 (entries _ (givenProp_mem given)).2
  refine .bind (elementChildren_tags (fun e mem => (entries e mem).2) children parts) fun ms counted => .pure ?_
  obtain ⟨given, inner⟩ := counted
  simp only [attributeAngles] at attributes none
  rw [Markup.angles, Markup.anglesAll_eq, free, List.map_append, List.sum_append, attributes, none, inner, given,
    ownTags, writtenBelow, writtenWith, List.map_append, List.sum_append]
  cases listsChildren layer || (givenProp "children" (renderedProps w showNode layer)).any fills with
  | true => simp only [Bool.not_true, Bool.false_eq_true, if_false, if_true]; omega
  | false => simp only [Bool.not_false, Bool.false_eq_true, if_false, if_true]; omega

end Walk

section Page

variable {w : Writer} (unmarked : ∀ kind, (w.handlers.get kind).IsUnmarked)

include unmarked in
/-- Where no node of a tree brings an opening angle bracket of its own, its markup has one for each tag. -/
theorem element_tags {n : Node} (own : n.Everywhere (UnmarkedLayer w)) :
    Delivers Unmarked (element w n) fun m => m.angles = tags w n := by
  induction own with
  | @mk layer here _ ih =>
    rw [element_eq, tags_eq]
    exact elementOf_tags (f := partOf w) unmarked (fun _ => rfl) here ih

/-- The states and functions of the page have names, and no node brings an opening angle bracket. -/
structure UnmarkedPage (w : Writer) (p : Page) : Prop where
  states : ∀ s ∈ p.states, IsName s.1
  methods : ∀ f ∈ p.methods, SetsNamed f
  layers : p.root.Everywhere (UnmarkedLayer w)

include unmarked in
theorem writeMarkup_tags {p : Page} (h : UnmarkedPage w p) {m : Module} (start : Unmarked m) :
    (writeMarkup w p).Ensures m fun r m' =>
      r.toOption.isSome → Unmarked m' ∧ angles m'.markup = tags w p.root := by
  refine (writeStates_unmarked h.states).delivers.ensures_bind start fun _ m _ start => ?_
  refine (writeMethods_unmarked h.methods).delivers.ensures_bind start fun _ m _ start => ?_
  refine (element_tags unmarked h.layers).ensures_bind start fun root m counted done => .modify fun _ => ⟨?_, ?_⟩
  · exact { done with }
  · exact (angles_text w root).trans counted

/-- The text of a page's module has one opening angle bracket for each tag. -/
theorem writeAll_tags {c : Catalogue} {handlers : Handlers} (unmarked : ∀ kind, (handlers.get kind).IsUnmarked)
    {width : Nat} {p : Page} (h : UnmarkedPage ⟨c, handlers, width⟩ p) (name : String) :
    (PagePart.writeAll c handlers p [.styles, .markup width]).Ensures (new name) fun r m =>
      r.toOption.isSome → ∀ called, angles (m.text called) = tags ⟨c, handlers, width⟩ p.root := by
  refine .bind ((writeStyles_ensures p _).mono ?_)
  rintro r m ⟨rfl, rfl⟩
  have start := addStyles_unmarked p.root name
  refine .bind ((writeMarkup_tags (w := ⟨c, handlers, width⟩) unmarked h start).mono ?_)
  rintro r m done
  cases r with
  | error f =>
    intro none
    cases none
  | ok =>
    obtain ⟨unmarked, counted⟩ := done rfl
    exact .pure fun _ called => (unmarked.angles_text called).trans counted

end Page

end Component
end Pagesmith
