import Pagesmith.Proofs.Component.Slots
import Pagesmith.Proofs.Component.Sources

/-!
Class names of elements. The walk over the styles of a page and the walk that writes its elements meet in the
classes of the module only: an element refers to a class exactly where its node has one there, and every class
that is there has its rule in the style sheet, which the module imports.
-/

namespace Pagesmith

namespace Module
open Script Text

/-- The module can refer to this class of its style sheet: the sheet has a rule for it, and whatever the
component is called, the text of the module imports the sheet. -/
structure Defines (m : Module) (c : String) : Prop where
  rule : ∃ ds before after, m.rules.lookup c = some ds ∧
    m.stylesheetText = before ++ ("." ++ c ++ " \x7b\n" ++ unlines ds ++ "\n\x7d") ++ after
  imported : ∀ title, (importLine (Component.stylesheetPath m.name) (some "styles") []).toList ∈
    importTexts (m.text title)

/-- The style sheets are the same, and so are the classes of nodes. -/
structure SameSheet (m m' : Module) : Prop where
  name : m'.name = m.name
  classes : m'.classes = m.classes
  nodeClasses : m'.nodeClasses = m.nodeClasses
  stylesheet : m'.stylesheet = m.stylesheet

theorem addImport_sameSheet {m₀ : Module} (d : Dependency) (wish : Option String) :
    Build.Keeps (SameSheet m₀) (addImport d wish) := by
  refine fun m h => (addImport_ensures d wish m).mono ?_
  rintro r m' ⟨-, -, ⟨-, -, rfl⟩ | ⟨-, -, rfl⟩ | ⟨-, -, -, rfl⟩⟩
  · exact h
  · exact h
  · exact ⟨h.name, h.classes, h.nodeClasses, h.stylesheet⟩

theorem intercalate_mem (sep : String) {t : String} {ts : List String} (mem : t ∈ ts) :
    ∃ before after, String.intercalate sep ts = before ++ t ++ after := by
  induction ts with
  | nil => cases mem
  | cons s r ih =>
    cases r with
    | nil =>
      obtain rfl := List.mem_singleton.1 mem
      exact ⟨"", "", by simp⟩
    | cons s' r =>
      rw [String.intercalate_cons_cons]
      obtain rfl | mem := List.mem_cons.1 mem
      · exact ⟨"", sep ++ String.intercalate sep (s' :: r), by simp [String.append_assoc]⟩
      · obtain ⟨before, after, same⟩ := ih mem
        exact ⟨s ++ sep ++ before, after, by simp [same, String.append_assoc]⟩

/-- A class with a rule, in a module that has its own style sheet if it has any class. -/
theorem defines_of_rule {m : Module} (own : Component.OwnSheet m.name m) {c : String} {ds : List String}
    (rule : m.rules.lookup c = some ds) : m.Defines c where
  rule := by
    have mem : (c, ds) ∈ m.rules := Table.mem_of_lookup rule
    have given : m.rules.isEmpty = false := by
      cases all : m.rules with
      | nil => simp [all] at mem
      | cons => rfl
    obtain ⟨before, after, same⟩ := intercalate_mem "\n\n" (List.mem_map_of_mem
      (f := fun r : String × List String => "." ++ r.1 ++ " \x7b\n" ++ unlines r.2 ++ "\n\x7d") mem)
    refine ⟨ds, before, after ++ "\n", rule, ?_⟩
    rw [stylesheetText_eq, sheetText, given, if_neg Bool.false_ne_true, same]
    exact String.append_assoc
  imported title := by
    have classes : m.classes.isEmpty = false := by
      have mem := Table.mem_of_lookup rule
      cases all : m.classes with
      | nil => simp [rules, Table.mapValues, all] at mem
      | cons => rfl
    have sheet : m.stylesheet = some (Component.stylesheetPath m.name) := by
      rw [own, classes, if_neg Bool.false_ne_true]
    have line : importLine (Component.stylesheetPath m.name) (some "styles") [] ∈ m.importBlocks.flatten := by
      have entry : (Component.stylesheetPath m.name, ⟨some "styles", []⟩) ∈ m.stylesheetEntries := by
        have given : givenText m.stylesheet = some (Component.stylesheetPath m.name) := by
          rw [sheet, givenText, Option.filter_some, if_pos]
          simp [Component.stylesheetPath, String.append_eq_empty_iff]
        rw [stylesheetEntries, given]
        exact List.mem_singleton_self _
      rw [importBlocks_flatten]
      exact List.mem_map.2 ⟨_, List.mem_cons_of_mem _ (List.mem_append_right _ entry), rfl⟩
    have read : importTexts (m.text title) = m.importBlocks.flatten.flatMap importTexts := by
      rw [text, importTexts_blankLine, importTexts_functionComponent (isName_toIdentifier _),
        List.append_nil, importTexts_header]
    have isName : ∀ d ∈ some "styles", IsName d := by
      rintro d ⟨⟩
      decide
    rw [read]
    refine List.mem_flatMap.2 ⟨_, line, ?_⟩
    rw [importTexts_importLine isName (by simp)]
    exact List.mem_singleton_self _

end Module

namespace Component
open Build PropOf Pagesmith.Module

section Relation

variable (w : Writer)

/-- The class name that the properties of a node give. -/
def givenClass (n : Node) : Option (PropOf Part) :=
  givenProp "className" (renderedProps w (fun p => p.shown ()) (n.layer.map (partOf w)))

/-- What becomes of the class name of a node. A node with styles refers to a class that is defined, beside the
name that is given; only a node without styles may have the given name alone, or none. -/
inductive ClassFor (D : String → Prop) (n : Node) : Option Attribute → Prop
  | styled {c : String} {a : Attribute} (defined : D c) (written : styledClassName c (givenClass w n) = .ok a) :
    ClassFor D n (some a)
  | plain {p : PropOf Part} {a : Option Attribute} {said : List Notice} (unstyled : n.styling = [])
    (given : givenClass w n = some p) (written : (plainClassName p said).1 = .ok a) : ClassFor D n a
  | none (unstyled : n.styling = []) (missing : givenClass w n = none) : ClassFor D n none

/-- The element that is written for a node: its class name is the one for the node, no other attribute is called
so, and the elements in its slots and among its children are, one by one, those of the nodes below it. -/
inductive Dressed (D : String → Prop) : Node → Markup → Prop
  | mk {n : Node} {tag : String} {plain : List Attribute} {className : Option Attribute}
    {children slots : List Markup} (apart : ∀ a ∈ plain, a.name ≠ "className")
    (own : ClassFor w D n className) (inSlots : ∀ x ∈ slots, InSlot w x plain)
    (below : List.Forall₂ (Dressed D) (writtenBelow w Node.shown n.layer)
      (slots ++ children.filter Markup.isElement)) :
    Dressed D n (.element tag (plain ++ className.toList) children)

variable {w} {D D' : String → Prop}

theorem ClassFor.mono (weaker : ∀ c, D c → D' c) {n : Node} {a : Option Attribute} (h : ClassFor w D n a) :
    ClassFor w D' n a := by
  cases h with
  | styled defined written => exact .styled (weaker _ defined) written
  | plain unstyled given written => exact .plain unstyled given written
  | none unstyled missing => exact .none unstyled missing

theorem forall₂_imp_left {α β : Type} {R R' : α → β → Prop} {as : List α} {bs : List β}
    (h : List.Forall₂ R as bs) (weaker : ∀ a ∈ as, ∀ b, R a b → R' a b) : List.Forall₂ R' as bs :=
  ((List.forall₂_and_left _ _).2 ⟨fun _ mem => mem, h⟩).imp fun a b both => weaker a both.1 b both.2

theorem Dressed.mono (weaker : ∀ c, D c → D' c) {n : Node} {x : Markup} (h : Dressed w D n x) :
    Dressed w D' n x := by
  induction n using Node.induction generalizing x with
  | step n ih =>
    cases h with
    | mk apart own inSlots below =>
      refine .mk apart (own.mono weaker) inSlots (forall₂_imp_left below fun n' mem x' => ?_)
      exact ih n' (writtenBelow_subset w Node.shown n.layer mem)

theorem Dressed.isElement {n : Node} {x : Markup} (h : Dressed w D n x) : x.isElement = true := by
  cases h
  rfl

end Relation

section Class

variable {ν : Type}

/-- The class of a node in a module: that of its styles, or else the one it brings in. -/
def nodeClass (m : Module) (layer : NodeOf ν) : Option String :=
  (givenText (m.nodeClasses.lookup layer.id)).or (givenText layer.cssClass)

/-- The attribute for a class name that is given or not: beside a class, alone, or none. -/
inductive ClassNamed (given : Option (PropOf Part)) : Option String → Option Attribute → Prop
  | styled {c : String} {a : Attribute} (written : styledClassName c given = .ok a) :
    ClassNamed given (some c) (some a)
  | plain {p : PropOf Part} {a : Option Attribute} {said : List Notice} (alone : given = some p)
    (written : (plainClassName p said).1 = .ok a) : ClassNamed given none a
  | none (missing : given = none) : ClassNamed given none none

theorem classNameOf_named {m₀ : Module} (layer : NodeOf Part) (given : Option (PropOf Part)) :
    Delivers (SameSheet m₀) (classNameOf layer given) (ClassNamed given (nodeClass m₀ layer)) := by
  refine .get fun m same => ?_
  have own : (givenText (m.nodeClasses.lookup layer.id)).or (givenText layer.cssClass) = nodeClass m₀ layer := by
    rw [same.nodeClasses, nodeClass]
  rw [own]
  cases nodeClass m₀ layer with
  | some c => exact .bind (.ofJob (.ofExcept fun a written => written)) fun a written => .pure (.styled written)
  | none =>
    cases given with
    | none => exact .pure (.none rfl)
    | some p => exact .ofJob fun said a written => .plain rfl written

end Class

section Page

/-- The element of the node is a good one for it. -/
def Written (w : Writer) (I : Module → Prop) (Good : Node → Markup → Prop) (n : Node) : Prop :=
  Delivers I (element w n) (Good n)

/-- The classes of the module are those for a node: it has one if it has styles, and brings in none itself. -/
def Classed (m : Module) (n : Node) : Prop :=
  n.layer.cssClass = none ∧ (n.styling ≠ [] → givenText (m.nodeClasses.lookup n.layer.id) ≠ none)

theorem outlastsCode_sameSheet {m₀ : Module} : OutlastsCode (SameSheet m₀) :=
  fun _ _ _ _ _ _ _ h => ⟨h.name, h.classes, h.nodeClasses, h.stylesheet⟩

variable {w : Writer} {m₀ : Module} {D : String → Prop}
  (defined : ∀ id c, m₀.nodeClasses.lookup id = some c → D c)

include defined in
theorem classNameOf_for {n : Node} (classed : Classed m₀ n) :
    Delivers (SameSheet m₀) (classNameOf (n.layer.map (partOf w)) (givenClass w n)) (ClassFor w D n) := by
  have own : nodeClass m₀ (n.layer.map (partOf w)) = givenText (m₀.nodeClasses.lookup n.layer.id) := by
    have plain : (n.layer.map (partOf w)).cssClass = none := classed.1
    rw [nodeClass, plain, show givenText none = none from rfl, Option.or_none]
    rfl
  refine (classNameOf_named (n.layer.map (partOf w)) (givenClass w n)).mono fun a named => ?_
  rw [own] at named
  have unstyled (missing : givenText (m₀.nodeClasses.lookup n.layer.id) = none) : n.styling = [] := by
    by_contra styles
    exact classed.2 styles missing
  cases known : givenText (m₀.nodeClasses.lookup n.layer.id) with
  | some c =>
    rw [known] at named
    cases named with
    | styled written => exact .styled (defined _ _ (Option.filter_eq_some_iff.1 known).1) written
  | none =>
    rw [known] at named
    cases named with
    | plain given written => exact .plain (unstyled known) given written
    | none missing => exact .none (unstyled known) missing

/-- The element of a node from the attribute for its class name and from the elements of the nodes below it: no
other attribute is called so, and the elements stand in its slots and among its children, one by one. -/
theorem element_made {Good : Node → Markup → Prop} (isElement : ∀ n x, Good n x → x.isElement = true) {n : Node}
    (inside : ∀ x ∈ n.layer.inside, Written w (SameSheet m₀) Good x) {Own : Option Attribute → Prop}
    (own : Delivers (SameSheet m₀) (classNameOf (n.layer.map (partOf w)) (givenClass w n)) Own) :
    Delivers (SameSheet m₀) (element w n) fun x => ∃ tag plain className children slots,
      x = .element tag (plain ++ className.toList) children ∧ (∀ a ∈ plain, a.name ≠ "className") ∧ Own className ∧
      (∀ x ∈ slots, InSlot w x plain) ∧
      List.Forall₂ Good (writtenBelow w Node.shown n.layer) (slots ++ children.filter Markup.isElement) := by
  have lasts : OutlastsCode (SameSheet m₀) := outlastsCode_sameSheet
  have events (key id : String) (actions : List Action) : Delivers (SameSheet m₀)
      (eventFunction w key id actions) fun _ => True :=
    (lasts.eventFunction (addImport_sameSheet Handlers.messageImport) w key id actions).delivers
  let written := renderedProps w Node.shown n.layer
  have slots : Catalogue.AllProps (fun p => ∀ x ∈ p.slotNodes, Written w (SameSheet m₀) Good x) written :=
    renderedProps_slots w Node.shown inside
  have rendered : renderedProps w (fun p : Part => p.shown ()) (n.layer.map (partOf w)) =
      Table.mapValues (PropOf.map (partOf w)) written := renderedProps_map w (partOf w) (fun _ => rfl) n.layer
  have rows : Keeps (SameSheet m₀) (writtenProps (w.rule n.layer) (n.layer.map (partOf w))) :=
    writtenProps_keeps fun url _ => lasts.loadRows n.layer.id url
  rw [element_eq]
  refine .bind (.ofJob (.any _)) fun tag _ => ?_
  refine .bind (rows.delivers_value (writtenProps_value w (n.layer.map (partOf w)))) fun given known => ?_
  rw [known, rendered]
  rw [givenClass, rendered, givenProp_map] at own
  refine (elementAs_made (J := delivering _) events isElement
    (importedTag_keeps (addImport_sameSheet _) tag).delivers own
    (fun x mem => inside x (List.mem_append_left _ mem)) slots).mono ?_
  rintro _ ⟨tag, plain, className, children, xs, rfl, -, rest⟩
  exact ⟨tag, plain, className, children, xs, rfl, rest⟩

include defined in
/-- Where the nodes of a tree are classed in a module, all of their elements are written as they should be. -/
theorem element_dressed {n : Node} (classed : ∀ x ∈ n.walk, Classed m₀ x) :
    Delivers (SameSheet m₀) (element w n) (Dressed w D n) := by
  induction n using Node.induction with
  | step n ih =>
    have inside : ∀ x ∈ n.layer.inside, Written w (SameSheet m₀) (Dressed w D) x := fun x mem =>
      ih x (n.layer.inside_subset_below mem) fun y walked =>
        classed y (Node.walk_trans (Node.mem_walk_inside mem) walked)
    have here : Classed m₀ n := classed n n.self_mem_walk
    refine (element_made (fun _ _ => Dressed.isElement) inside (classNameOf_for defined here)).mono ?_
    rintro _ ⟨tag, plain, className, children, slots, rfl, apart, own, inSlots, below⟩
    exact .mk apart own inSlots below

/-- Every class that a styled page brings in has a rule. -/
theorem rule_of_class {root : Node} {name id c : String}
    (found : (addStyles root (new name)).nodeClasses.lookup id = some c) :
    ∃ ds, (addStyles root (new name)).rules.lookup c = some ds := by
  have mem := Table.mem_of_lookup found
  rw [(addStyles_tables root (new name)).2] at mem
  obtain none | mem := Table.mem_insertAll mem
  · cases none
  · obtain ⟨n, styled, same⟩ := List.mem_map.1 mem
    obtain ⟨-, rfl⟩ := Prod.mk.inj same
    have last : root.lastStyled? (Text.className n.layer.id) ≠ none := by
      rw [Node.lastStyled?, Ne, List.getLast?_eq_none_iff]
      exact List.ne_nil_of_mem (List.mem_filter.2 ⟨styled, beq_self_eq_true _⟩)
    obtain ⟨last, is⟩ := Option.ne_none_iff_exists'.1 last
    exact ⟨_, by rw [(addStyles_sheet root name).rule, is, Option.map_some]⟩

/-- A tree without classes of its own is classed in a module that has taken in its styles. -/
theorem classed_addStyles {root : Node} (unclassed : root.Everywhere (·.cssClass = none)) (name : String) :
    ∀ n ∈ root.walk, Classed (addStyles root (new name)) n := by
  intro n mem
  have none : n.layer.cssClass = none := by
    obtain ⟨here, -⟩ := unclassed.walk n mem
    exact here
  refine ⟨none, fun styles => ?_⟩
  have styled : n ∈ root.styled := List.mem_filter.2 ⟨mem, by simpa using styles⟩
  have given : Text.className n.layer.id ≠ "" := by
    intro empty
    have isName : Text.IsName (Text.className n.layer.id) := Text.isName_toIdentifier _
    rw [empty] at isName
    exact absurd isName (by decide)
  rw [(addStyles_sheet root name).node n styled, givenText, Option.filter_some, if_pos (by simpa using given)]
  exact Option.some_ne_none _

/-- The styles of a page and then its markup, on a new module: the elements of all nodes are written as they
should be, and whatever class they refer to is defined. -/
theorem writeAll_dressed (c : Catalogue) (handlers : Handlers) (width : Nat) {p : Page}
    (unclassed : p.root.Everywhere (·.cssClass = none)) (name : String) :
    (PagePart.writeAll c handlers p [.styles, .markup width]).Ensures (new name) fun r m =>
      r.toOption.isSome → ∃ root, m.markup = Writer.text ⟨c, handlers, width⟩ root ∧
        Dressed ⟨c, handlers, width⟩ m.Defines p.root root := by
  let w : Writer := ⟨c, handlers, width⟩
  let m₀ := addStyles p.root (new name)
  have lasts : OutlastsCode (SameSheet m₀) := outlastsCode_sameSheet
  have title : m₀.name = name := by
    obtain ⟨_, _, _, same⟩ := addStyles_eq p.root (new name)
    exact congrArg Module.name same
  have own : OwnSheet name m₀ := addStyles_ownSheet p.root name
  have defines (m : Module) (same : SameSheet m₀ m) (c : String) (rule : ∃ ds, m₀.rules.lookup c = some ds) :
      m.Defines c := by
    obtain ⟨ds, found⟩ := rule
    have sheet : OwnSheet m.name m := by
      rw [OwnSheet, same.name, same.classes, same.stylesheet, title]
      exact own
    have rule : m.rules.lookup c = some ds := by
      rw [rules, same.classes]
      exact found
    exact defines_of_rule sheet rule
  have elements := element_dressed (w := w) (D := fun c => ∃ ds, m₀.rules.lookup c = some ds)
    (fun _ _ => rule_of_class) (classed_addStyles unclassed name)
  have markup : (writeMarkup w p).Ensures m₀ fun r m => r.toOption.isSome → ∃ root,
      m.markup = w.text root ∧ Dressed w m.Defines p.root root := by
    refine (lasts.writeStates p.states).delivers.ensures_bind ⟨rfl, rfl, rfl, rfl⟩ fun _ m _ same => ?_
    refine (lasts.writeMethods p.methods).delivers.ensures_bind same fun _ m _ same => ?_
    refine elements.ensures_bind same fun root m dressed same => .modify fun _ => ⟨root, rfl, ?_⟩
    have left : SameSheet m₀ { m with markup := w.text root } :=
      ⟨same.name, same.classes, same.nodeClasses, same.stylesheet⟩
    exact dressed.mono (defines _ left)
  refine .bind ((writeStyles_ensures p _).mono ?_)
  rintro r m ⟨rfl, rfl⟩
  refine .bind (markup.mono fun r m done => ?_)
  cases r with
  | error f => simp [Except.toOption]
  | ok => exact .pure fun _ => done rfl

end Page

end Component
end Pagesmith
