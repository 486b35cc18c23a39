import Pagesmith.Proofs.Component.Walk
import Pagesmith.Proofs.Script.Carried

/-!
What is written for the texts of a page: for each literal, each address to open and each address of
rows, the string literal, quoted attribute or plain text that the generator makes of it, wherever the
node stands. What a node emits depends on its own data only, not on what has become of the nodes
below it.
-/

namespace Pagesmith.Component
open PropOf

/-- What is written for a text: a string literal, or the text itself, in quotes or plain, where none
of its characters has a meaning. -/
inductive Emission where
  | code (s : String)
  | quoted (s : String) (inert : s.toList.any Markup.endsQuoted = false)
  | plain (s : String) (inert : s.toList.any Markup.endsText = false)

namespace Emission

/-- The text of an emission. -/
def text : Emission → String
  | code s => Script.stringLiteral s
  | quoted s _ => "\"" ++ s ++ "\""
  | plain s _ => s

/-- Nothing in the text is taken for the end of a line. In a string literal only the next line
character would be; all other line ends are escaped. -/
def IsWhole : Emission → Prop
  | code s => Script.nextLine ∉ s.toList
  | quoted s _ | plain s _ => ∀ c ∈ s.toList, Text.isLineEnd c = false

theorem isWhole_iff (e : Emission) : e.IsWhole ↔ ∀ c ∈ e.text.toList, Text.isLineEnd c = false := by
  cases e with
  | code s => exact (Script.stringLiteral_whole s).symm
  | quoted s =>
    have quote : Text.isLineEnd '"' = false := rfl
    simp [IsWhole, text, or_imp, forall_and, quote]
  | plain s => exact Iff.rfl

theorem feed_notMem (e : Emission) : '\n' ∉ e.text.toList := by
  intro mem
  cases e with
  | code s =>
    have inert := Script.isInert_codeText (Value.shown_jsonString s) _ mem
    exact absurd inert (by decide)
  | quoted s inert =>
    have inside : '\n' ∈ s.toList := by simpa [text] using mem
    simp only [List.any_eq_false] at inert
    exact inert _ inside rfl
  | plain s inert =>
    simp only [List.any_eq_false] at inert
    exact inert _ mem rfl

/-- What is written for a literal in an attribute. -/
def ofAttribute : Value → List Emission
  | .str s => if h : s.toList.any Markup.endsQuoted = false then [quoted s h] else [code s]
  | v => v.strings.map code

/-- What is written for a literal as a child. -/
def ofChild : Value → List Emission
  | .str s =>
    if s == "" then []
    else if h : Text.trim s = s ∧ s.toList.any Markup.endsText = false then [plain s h.2]
    else [code s]
  | v => v.strings.map code

/-- A setting as a text; one that does not count as given is the empty text. -/
def settingText (a : Action) (key : String) : String :=
  if (a.setting key).isTruthy then (a.setting key).text else ""

/-- What is written for the address that an action opens. -/
def ofAction (hs : Handlers) (a : Action) : List Emission :=
  match hs.get a.kind with
  | .openLink => [code (settingText a "url")]
  | _ => []

section Props

variable {ν μ : Type}

/-- What is written for a property that becomes an attribute, apart from the nodes in it. -/
def ofProp (hs : Handlers) : PropOf ν → List Emission
  | .literal v => ofAttribute v
  | .action a => ofAction hs a
  | .many items =>
    if (PropOf.many items).isActionList then
      (PropOf.many items).actions.flatMap (ofAction hs)
    else []
  | _ => []

/-- What is written for a given class name, beside the style class of the node or alone. -/
def ofClass (styled : Bool) : Option (PropOf ν) → List Emission
  | some (.literal v) =>
    if styled then if v.isBlank then [] else [code v.text]
    else ofAttribute v
  | _ => []

/-- What is written for children given by a property. -/
def ofChildren : Option (PropOf ν) → List Emission
  | some (.literal v) => ofChild v
  | _ => []

theorem ofProp_map (f : ν → μ) (hs : Handlers) (p : PropOf ν) :
    ofProp hs (p.map f) = ofProp hs p := by
  cases p with
  | many items =>
    have same := isActionList_map f (.many items)
    have actions := actions_map f (.many items)
    simp only [PropOf.map] at same actions
    simp only [PropOf.map, ofProp, same, actions]
  | _ => rfl

theorem ofClass_map (f : ν → μ) (styled : Bool) (p : Option (PropOf ν)) :
    ofClass styled (p.map (PropOf.map f)) = ofClass styled p := by
  cases p with
  | none => rfl
  | some p => cases p <;> rfl

theorem ofChildren_map (f : ν → μ) (p : Option (PropOf ν)) :
    ofChildren (p.map (PropOf.map f)) = ofChildren p := by
  cases p with
  | none => rfl
  | some p => cases p <;> rfl

end Props

end Emission

section Nodes

variable {ν μ : Type}

/-- The node has a style class, made from its styles or its own. -/
def isStyled (classes : List (String × String)) (layer : NodeOf ν) : Bool :=
  ((givenText (classes.lookup layer.id)).or (givenText layer.cssClass)).isSome

/-- The schema lists at least one child of the node. -/
def listsChildren (layer : NodeOf ν) : Bool :=
  match layer.children with
  | some (_ :: _) => true
  | _ => false

theorem listsChildren_eq_false {layer : NodeOf ν}
    (unlisted : ∀ c cs, layer.children = some (c :: cs) → False) : listsChildren layer = false := by
  rw [listsChildren]
  split
  · next listed => exact absurd listed (unlisted _ _)
  · rfl

/-- What is written for a node's own data. -/
def ownEmissions (w : Writer) (classes : List (String × String)) (showNode : ν → String)
    (layer : NodeOf ν) : List Emission :=
  let written := renderedProps w showNode layer
  ((rowsAddress (w.rule layer) layer).map Emission.code).toList ++
    ((attributeProps written).flatMap fun e => Emission.ofProp w.handlers e.2) ++
    Emission.ofClass (isStyled classes layer) (givenProp "className" written) ++
    if listsChildren layer then [] else Emission.ofChildren (givenProp "children" written)

/-- The nodes that are written with a node for which these properties are written. -/
def writtenWith (layer : NodeOf ν) (written : List (String × PropOf ν)) : List ν :=
  ((attributeProps written).flatMap fun e => e.2.slotNodes) ++
    if listsChildren layer then layer.children.getD []
    else ((givenProp "children" written).map PropOf.slotNodes).getD []

/-- The nodes below a node that are written with it. -/
def writtenBelow (w : Writer) (showNode : ν → String) (layer : NodeOf ν) : List ν :=
  writtenWith layer (renderedProps w showNode layer)

/-- What holds of all nodes that a walk goes to holds of those in the slots of the written properties. -/
theorem renderedProps_slots (w : Writer) (showNode : ν → String) {layer : NodeOf ν} {P : ν → Prop}
    (inside : ∀ n ∈ layer.inside, P n) :
    Catalogue.AllProps (fun p => ∀ n ∈ p.slotNodes, P n) (renderedProps w showNode layer) :=
  renderedProps_allProps w (Catalogue.isKept_slots showNode _) (fun _ mem => nomatch mem)
    fun e mem n slot => inside n (List.mem_append_right _ (List.mem_flatMap.2 ⟨e, mem, slot⟩))

/-- Only nodes that a walk goes to are written with a node. -/
theorem writtenBelow_inside (w : Writer) (showNode : ν → String) (layer : NodeOf ν) :
    writtenBelow w showNode layer ⊆ layer.inside := by
  have rendered := renderedProps_slots w showNode fun n (mem : n ∈ layer.inside) => mem
  intro n mem
  simp only [writtenBelow, writtenWith, List.mem_append, List.mem_flatMap] at mem
  obtain ⟨e, found, slot⟩ | mem := mem
  · exact rendered e (mem_attributeProps found) n slot
  · split at mem
    · exact List.mem_append_left _ mem
    · cases given : givenProp "children" (renderedProps w showNode layer) with
      | none =>
        rw [given] at mem
        cases mem
      | some p =>
        rw [given] at mem
        exact rendered _ (givenProp_mem given) n mem

theorem writtenBelow_subset (w : Writer) (showNode : ν → String) (layer : NodeOf ν) :
    writtenBelow w showNode layer ⊆ layer.below :=
  List.Subset.trans (writtenBelow_inside w showNode layer) layer.inside_subset_below

/-- What is written for a node and the nodes that are written with it, at any depth. -/
inductive Emits (w : Writer) (classes : List (String × String)) : Node → Emission → Prop
  | own {n : Node} {e : Emission} (mem : e ∈ ownEmissions w classes Node.shown n.layer) :
      Emits w classes n e
  | inner {n n' : Node} {e : Emission} (mem : n' ∈ writtenBelow w Node.shown n.layer)
      (h : Emits w classes n' e) : Emits w classes n e

/-- What is written for the literals of a page: those its states start with, and those of its
nodes. -/
inductive Carries (w : Writer) (classes : List (String × String)) (p : Page) : Emission → Prop
  | state {name s : String} {initial : Value} (given : p.states.lookup name = some initial)
      (mem : s ∈ initial.strings) : Carries w classes p (.code s)
  | node {e : Emission} (h : Emits w classes p.root e) : Carries w classes p e

section Naturality

variable (w : Writer) (classes : List (String × String)) (f : ν → μ) {showNode : ν → String}
  {showImage : μ → String}

theorem renderedProps_map (same : ∀ n, showImage (f n) = showNode n) (layer : NodeOf ν) :
    renderedProps w showImage (layer.map f) =
      Table.mapValues (PropOf.map f) (renderedProps w showNode layer) := by
  have rule : w.rule (layer.map f) = w.rule layer := rfl
  have written : Catalogue.written showImage (w.rule layer).steps layer.id (layer.map f).props =
      Table.mapValues (PropOf.map f)
        (Catalogue.written showNode (w.rule layer).steps layer.id layer.props) :=
    Catalogue.written_map f same _ _ layer.props
  have id : (layer.map f).id = layer.id := rfl
  rw [renderedProps, renderedProps, rule, id, written, rowsAddress_map]
  cases rowsAddress (w.rule layer) layer with
  | none => rfl
  | some url => exact Table.insert_mapValues (PropOf.map f) _ (.reference _) _

theorem attributeProps_map (props : List (String × PropOf ν)) :
    attributeProps (Table.mapValues (PropOf.map f) props) =
      Table.mapValues (PropOf.map f) (attributeProps props) := by
  rw [attributeProps, Table.erase_mapValues, Table.erase_mapValues, attributeProps]

theorem givenProp_map (key : String) (props : List (String × PropOf ν)) :
    givenProp key (Table.mapValues (PropOf.map f) props) =
      (givenProp key props).map (PropOf.map f) := by
  rw [givenProp, givenProp, Table.lookup_mapValues]
  cases props.lookup key with
  | none => rfl
  | some p =>
    cases p with
    | raw v => cases v <;> rfl
    | _ => rfl

theorem listsChildren_map (layer : NodeOf ν) :
    listsChildren (layer.map f) = listsChildren layer := by
  obtain ⟨id, component, dependency, props, schemaName, children, styles, cssClass⟩ := layer
  match children with
  | none | some [] | some (_ :: _) => rfl

theorem ownEmissions_map (same : ∀ n, showImage (f n) = showNode n) (layer : NodeOf ν) :
    ownEmissions w classes showImage (layer.map f) = ownEmissions w classes showNode layer := by
  have styled : isStyled classes (layer.map f) = isStyled classes layer := rfl
  have rule : w.rule (layer.map f) = w.rule layer := rfl
  simp only [ownEmissions, renderedProps_map w f same, attributeProps_map, givenProp_map,
    listsChildren_map, rowsAddress_map, rule, styled, Emission.ofClass_map, Emission.ofChildren_map]
  simp only [Table.mapValues, List.flatMap_map, Emission.ofProp_map]

theorem writtenBelow_map (same : ∀ n, showImage (f n) = showNode n) (layer : NodeOf ν) :
    writtenBelow w showImage (layer.map f) = (writtenBelow w showNode layer).map f := by
  have children : (layer.map f).children.getD [] = (layer.children.getD []).map f := by
    rw [NodeOf.map]
    cases layer.children <;> rfl
  have given (p : Option (PropOf ν)) : ((p.map (PropOf.map f)).map slotNodes).getD [] =
      ((p.map slotNodes).getD []).map f := by
    cases p with
    | none => rfl
    | some p => exact slotNodes_map f p
  simp only [writtenBelow, writtenWith, renderedProps_map w f same, attributeProps_map, givenProp_map,
    listsChildren_map, children, given]
  simp only [Table.mapValues, List.flatMap_map, slotNodes_map, List.map_append, List.map_flatMap,
    apply_ite (List.map f)]

end Naturality

end Nodes

end Pagesmith.Component
