import Pagesmith.Proofs.Component.Emission

/-!
Where the elements of the nodes below a node stand in its own: in the code of an attribute, or among the
children. Whatever is said of each of them, all that are written with the node are there, one by one.
-/

namespace Pagesmith

/-- The markup is an element. -/
def Markup.isElement : Markup → Bool
  | element .. => true
  | text _ | code _ => false

namespace Component
open Build PropOf Pagesmith.Module

section Slot

variable (w : Writer)

/-- An element of a slot stands in the code of an attribute, alone or in a fragment. -/
inductive InSlot (x : Markup) (attributes : List Attribute) : Prop
  | alone {key : String} (mem : ⟨key, .code (w.text x)⟩ ∈ attributes)
  | among {key : String} {xs : List Markup} (inside : x ∈ xs)
    (mem : ⟨key, .code (w.text (.element "" [] xs))⟩ ∈ attributes)

variable {w}

theorem InSlot.mono {x : Markup} {as bs : List Attribute} (h : InSlot w x as) (more : as ⊆ bs) : InSlot w x bs := by
  cases h with
  | alone mem => exact .alone (more mem)
  | among inside mem => exact .among inside (more mem)

end Slot

section Walk

variable {J : Judgement} {w : Writer} {part : Node → Part} {Good : Node → Markup → Prop}

theorem writeParts_good {ns : List Node} (parts : ∀ n ∈ ns, J.Holds (part n).write (Good n)) :
    J.Holds (writeAll (ns.map part)) (List.Forall₂ Good ns) := by
  induction ns with
  | nil => exact J.pure .nil
  | cons n r ih =>
    obtain ⟨first, rest⟩ := List.forall_mem_cons.1 parts
    exact J.bind first fun x => J.bind (ih rest) fun xs => J.pure fun more good => .cons good more

theorem textAttribute_name (key s : String) : (Markup.textAttribute key s).name = key := by
  rw [Markup.textAttribute]
  split <;> rfl

theorem literalAttribute_name (key : String) (v : Value) :
    (Markup.literalAttribute key v).Yields fun a => a.name = key := by
  cases v with
  | str s => exact .pure (textAttribute_name key s)
  | _ => exact .bind (.any _) fun _ _ => .pure rfl

/-- These attributes have names from `keys`, and the elements of these nodes stand in them. -/
def Carry (w : Writer) (Good : Node → Markup → Prop) (keys : List String) (ns : List Node)
    (as : List Attribute) : Prop :=
  (∀ a ∈ as, a.name ∈ keys) ∧ ∃ xs, List.Forall₂ Good ns xs ∧ ∀ x ∈ xs, InSlot w x as

theorem carry_one (key : String) (body : AttributeBody) : Carry w Good [key] [] [⟨key, body⟩] :=
  ⟨by simp, [], .nil, by simp⟩

theorem carry_none (keys : List String) : Carry w Good keys [] [] := ⟨by simp, [], .nil, by simp⟩

theorem Carry.append {key : String} {keys : List String} {ns ns' : List Node} {as bs : List Attribute}
    (first : Carry w Good [key] ns as) (rest : Carry w Good keys ns' bs) :
    Carry w Good (key :: keys) (ns ++ ns') (as ++ bs) := by
  obtain ⟨names, xs, good, inside⟩ := first
  obtain ⟨names', xs', good', inside'⟩ := rest
  refine ⟨fun b mem => ?_, xs ++ xs', List.rel_append good good', fun x mem => ?_⟩
  · obtain mem | mem := List.mem_append.1 mem
    · simp [List.mem_singleton.1 (names b mem)]
    · exact List.mem_cons_of_mem _ (names' b mem)
  · obtain mem | mem := List.mem_append.1 mem
    · exact (inside x mem).mono (List.subset_append_left _ _)
    · exact (inside' x mem).mono (List.subset_append_right _ _)

variable (events : ∀ key id actions, J.Holds (eventFunction w key id actions) fun _ => True)

include events in
theorem propAttribute_carries (id key : String) {p : PropOf Node}
    (parts : ∀ n ∈ p.slotNodes, J.Holds (part n).write (Good n)) :
    J.Holds (propAttribute w id key (p.map part)) fun a =>
      Carry w Good [key] p.slotNodes a.toList := by
  have event (actions : List Action) : J.Holds
      (do return some (⟨key, .code (← eventFunction w key id actions)⟩ : Attribute))
      fun a => Carry w Good [key] [] a.toList :=
    J.bind (events key id actions) fun name => J.pure fun _ => carry_one key _
  cases p with
  | literal v =>
    refine J.bind (J.ofJob (literalAttribute_name key v)) fun a => J.pure fun named => ?_
    obtain ⟨name, body⟩ := a
    cases named
    exact carry_one _ _
  | reference | expression | function => exact J.pure (carry_one key _)
  | action a => exact event [a]
  | node n =>
    refine J.bind (parts n (List.mem_singleton_self n)) fun x => J.pure fun good => ?_
    refine ⟨by simp, [x], .cons good .nil, ?_⟩
    simp only [List.forall_mem_singleton]
    exact .alone (List.mem_singleton_self _)
  | many items =>
    have slots := slotNodes_map part (.many items)
    have slotList := isSlotList_map part (.many items)
    have actionList := isActionList_map part (.many items)
    simp only [PropOf.map] at slots slotList actionList
    simp only [PropOf.map, propAttribute, slots, slotList, actionList]
    split
    · next actions =>
      rw [slotNodes_actionList actions]
      exact event _
    · split
      · refine J.bind (writeParts_good parts) fun xs => J.pure fun good => ?_
        exact ⟨by simp, xs, good, fun x mem => .among mem (List.mem_singleton_self _)⟩
      · next other =>
        rw [slotNodes_other (by simpa using other)]
        exact J.bind (J.ofJob (.any _)) fun _ => J.pure fun _ => carry_none _
  | raw v => exact J.bind (J.ofJob (.any _)) fun _ => J.pure fun _ => carry_none _

include events in
theorem propAttributes_carry (id : String) {props : List (String × PropOf Node)}
    (parts : ∀ e ∈ props, ∀ n ∈ e.2.slotNodes, J.Holds (part n).write (Good n)) :
    J.Holds (propAttributes w id (Table.mapValues (PropOf.map part) props))
      (Carry w Good (props.map (·.1)) (props.flatMap fun e => e.2.slotNodes)) := by
  induction props with
  | nil => exact J.pure (carry_none _)
  | cons e r ih =>
    obtain ⟨own, others⟩ := List.forall_mem_cons.1 parts
    exact J.bind (propAttribute_carries events id e.1 own) fun a =>
      J.bind (ih others) fun as => J.pure fun more first => first.append more

theorem literalChild_inert (v : Value) :
    (Markup.literalChild v).Yields fun x => x.toList.filter Markup.isElement = [] := by
  cases v with
  | null => exact .pure rfl
  | str s =>
    simp only [Markup.literalChild, Markup.textChild]
    refine .pure ?_
    split
    · rfl
    · split <;> rfl
  | _ => exact .bind (.any _) fun _ _ => .pure rfl

variable (isElement : ∀ n x, Good n x → x.isElement = true)
include isElement

theorem filter_good {ns : List Node} {xs : List Markup} (h : List.Forall₂ Good ns xs) :
    xs.filter Markup.isElement = xs := by
  induction h with
  | nil => rfl
  | cons first _ ih => rw [List.filter_cons, isElement _ _ first, if_pos rfl, ih]

theorem writeParts_elements {ns : List Node} (parts : ∀ n ∈ ns, J.Holds (part n).write (Good n)) :
    J.Holds (writeAll (ns.map part)) fun xs => List.Forall₂ Good ns (xs.filter Markup.isElement) := by
  refine J.mono (writeParts_good parts) fun xs good => ?_
  rwa [filter_good isElement good]

theorem childrenOf_good (id : String) {p : PropOf Node}
    (parts : ∀ n ∈ p.slotNodes, J.Holds (part n).write (Good n)) :
    J.Holds (childrenOf id (p.map part)) fun xs =>
      List.Forall₂ Good p.slotNodes (xs.filter Markup.isElement) := by
  cases p with
  | literal v =>
    refine J.bind (J.ofJob (literalChild_inert v)) fun x => J.pure fun inert => ?_
    rw [inert]
    exact .nil
  | node n =>
    have one : ∀ x ∈ [n], J.Holds (part x).write (Good x) := parts
    exact writeParts_elements isElement one
  | reference | expression | function => exact J.pure .nil
  | many items =>
    have slots := slotNodes_map part (.many items)
    have slotList := isSlotList_map part (.many items)
    simp only [PropOf.map] at slots slotList
    simp only [PropOf.map, childrenOf, slots, slotList]
    split
    · exact writeParts_elements isElement parts
    · next other =>
      rw [slotNodes_other (by simpa using other)]
      exact J.bind (J.ofJob (.any _)) fun _ => J.pure fun _ => .nil
  | action | raw => exact J.bind (J.ofJob (.any _)) fun _ => J.pure fun _ => .nil

theorem elementChildren_good {layer : NodeOf Node} {written : List (String × PropOf Node)}
    (children : ∀ n ∈ layer.children.getD [], J.Holds (part n).write (Good n))
    (parts : ∀ e ∈ written, ∀ n ∈ e.2.slotNodes, J.Holds (part n).write (Good n)) :
    J.Holds (elementChildren (layer.map part) (Table.mapValues (PropOf.map part) written)) fun xs =>
      List.Forall₂ Good (if listsChildren layer then layer.children.getD []
        else ((givenProp "children" written).map PropOf.slotNodes).getD []) (xs.filter Markup.isElement) := by
  have lists := listsChildren_map part layer
  rw [elementChildren, givenProp_map]
  split
  · next listed =>
    have known : listsChildren layer = true := by rw [← lists, listsChildren, listed]
    obtain ⟨ns, given, same⟩ := Option.map_eq_some_iff.1 listed
    rw [given] at children ⊢
    rw [known, if_pos rfl, ← same]
    exact writeParts_elements isElement children
  · next found unlisted =>
    have other : listsChildren layer = false := by rw [← lists, listsChildren_eq_false unlisted]
    obtain ⟨p, given, rfl⟩ := Option.map_eq_some_iff.1 found
    rw [other, given]
    exact childrenOf_good isElement layer.id (parts _ (givenProp_mem given))
  · next none unlisted =>
    have other : listsChildren layer = false := by rw [← lists, listsChildren_eq_false unlisted]
    rw [other, Option.map_eq_none_iff.1 none]
    exact J.pure .nil

include events in
/-- An element is made from its tag, from the attribute for its class name, and from the elements of the nodes that
are written with its own: no other attribute is called so, and the elements stand in its slots and among its
children, one by one. -/
theorem elementAs_made {layer : NodeOf Node} {written : List (String × PropOf Node)} {tag : String}
    {Tag : String → Prop} {Own : Option Attribute → Prop}
    (tagged : J.Holds (importedTag tag layer.dependency) Tag)
    (own : J.Holds (classNameOf (layer.map part) ((givenProp "className" written).map (PropOf.map part))) Own)
    (children : ∀ n ∈ layer.children.getD [], J.Holds (part n).write (Good n))
    (parts : ∀ e ∈ written, ∀ n ∈ e.2.slotNodes, J.Holds (part n).write (Good n)) :
    J.Holds (elementAs w tag (layer.map part) (Table.mapValues (PropOf.map part) written)) fun x =>
      ∃ tag plain className children slots, x = .element tag (plain ++ className.toList) children ∧ Tag tag ∧
        (∀ a ∈ plain, a.name ≠ "className") ∧ Own className ∧ (∀ x ∈ slots, InSlot w x plain) ∧
        List.Forall₂ Good (writtenWith layer written) (slots ++ children.filter Markup.isElement) := by
  rw [elementAs, attributeProps_map, givenProp_map]
  refine J.bind tagged fun tag => ?_
  refine J.bind (propAttributes_carry events layer.id fun e mem => parts e (mem_attributeProps mem)) fun plain => ?_
  refine J.bind own fun className => ?_
  refine J.bind (elementChildren_good isElement children parts) fun ms => J.pure fun good own carried tagged => ?_
  obtain ⟨names, xs, inAttributes, inSlots⟩ := carried
  refine ⟨tag, plain, className, ms, xs, rfl, tagged, fun a mem same => ?_, own, inSlots,
    List.rel_append inAttributes good⟩
  obtain ⟨e, there, key⟩ := List.mem_map.1 (names a mem)
  have erased := (List.mem_filter.1 (List.mem_filter.1 there).1).2
  simp [key, same] at erased

end Walk

end Component
end Pagesmith
