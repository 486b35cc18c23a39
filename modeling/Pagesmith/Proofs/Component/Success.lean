import Pagesmith.Proofs.Component.Literals
import Pagesmith.Proofs.Component.Sources

/-!
Writing a page fails over none but the faults that its values have: every literal that is written has a text, unless
its fault is excused, and nothing else on the way can fail.
-/

namespace Pagesmith

namespace Component
open Build

variable {faults : Set Fault}

section Actions

theorem addImport_completes (d : Dependency) (wish : Option String) :
    (Module.addImport d wish).Completes faults := by
  refine fun m => (Module.addImport_ensures d wish m).mono ?_
  rintro _ _ ⟨name, rfl, -⟩
  trivial

theorem uniqueName_completes (base : String) : (Module.uniqueName base).Completes faults :=
  fun _ _ => trivial

theorem statement_completes (h : Handler) {a : Action} (whole : a.config.IsWhole faults) :
    (Handlers.statement h a).Completes faults := by
  cases h with
  | openLink => exact .bind (.ofJob (.ofExcept (textSetting_meets whole _))) fun url => .pure _
  | showMessage =>
    refine .bind (addImport_completes _ _) fun name => ?_
    refine .bind (.ofJob (messageLevel_gives _).completes) fun level => ?_
    exact .bind (.ofJob (.ofExcept (textSetting_meets whole _))) fun text => .pure _
  | callMethod => exact .ofJob (callStatement_completes (callTarget_short whole _))
  | unresolved =>
    refine .bind (.ofJob (.ofExcept (setting_meets whole _))) fun target => ?_
    exact .bind (.ofJob (.ofExcept (setting_meets whole _))) fun method => .pure _
  | log | call f => exact .bind (.ofJob whole.literal) fun settings => .pure _

theorem statements_complete (hs : Handlers) {actions : List Action}
    (whole : ∀ a ∈ actions, a.config.IsWhole faults) : (hs.statements actions).Completes faults := by
  have labelled : (hs.labelled actions).Completes faults := by
    induction actions with
    | nil => exact .pure _
    | cons a r ih =>
      obtain ⟨first, rest⟩ := List.forall_mem_cons.1 whole
      exact .bind (statement_completes _ first) fun text => .bind (ih rest) fun more => .pure _
  rw [Handlers.statements.eq_def]
  split
  · exact .bind (statement_completes _ (whole _ (by simp))) fun text => .pure _
  · exact labelled

end Actions

section Elements

variable {w : Writer}

/-- Writing the parts fails over none but these faults. -/
def AllComplete (faults : Set Fault) (ps : List Part) : Prop := ∀ p ∈ ps, p.write.Completes faults

theorem writeAll_completes {ps : List Part} (parts : AllComplete faults ps) : (writeAll ps).Completes faults := by
  induction ps with
  | nil => exact .pure []
  | cons p r ih =>
    obtain ⟨first, rest⟩ := List.forall_mem_cons.1 parts
    exact .bind first fun m => .bind (ih rest) fun ms => .pure _

theorem eventFunction_completes (key id : String) {actions : List Action}
    (whole : ∀ a ∈ actions, a.config.IsWhole faults) : (eventFunction w key id actions).Completes faults := by
  refine .bind (uniqueName_completes _) fun name => ?_
  exact .bind (statements_complete _ whole) fun code => .bind (.modify _) fun _ => .pure _

variable {p : PropOf Part}

theorem propAttribute_completes (id key : String) (whole : p.IsWhole faults) (parts : AllComplete faults p.nodes) :
    (propAttribute w id key p).Completes faults := by
  cases p with
  | literal v => exact .bind (.ofJob (literalAttribute_completes whole _)) fun a => .pure _
  | reference name => exact .pure _
  | expression t | function t => exact .pure _
  | action a =>
    have only : ∀ b ∈ [a], b.config.IsWhole faults := List.forall_mem_singleton.2 whole
    exact .bind (eventFunction_completes key id only) fun name => .pure _
  | node part =>
    exact .bind (parts part (by simp [PropOf.nodes])) fun m => .pure _
  | many items =>
    simp only [propAttribute]
    split
    · exact .bind (eventFunction_completes key id whole.actions) fun name => .pure _
    · split
      · have slots : AllComplete faults (PropOf.many items).slotNodes :=
          fun part mem => parts part (PropOf.slotNodes_subset _ mem)
        exact .bind (writeAll_completes slots) fun ms => .pure _
      · exact .bind (.note _) fun _ => .pure _
  | raw v => exact .bind (.note _) fun _ => .pure _

/-- The values are whole, and the parts in them can be written. -/
def Writable (faults : Set Fault) (p : PropOf Part) : Prop := p.IsWhole faults ∧ AllComplete faults p.nodes

theorem propAttributes_complete (id : String) {props : List (String × PropOf Part)}
    (h : Catalogue.AllProps (Writable faults) props) : (propAttributes w id props).Completes faults := by
  induction props with
  | nil => exact .pure _
  | cons e r ih =>
    obtain ⟨⟨whole, parts⟩, rest⟩ := List.forall_mem_cons.1 h
    exact .bind (propAttribute_completes id e.1 whole parts) fun a => .bind (ih rest) fun more => .pure _

theorem classNameOf_completes (layer : NodeOf Part) {given : Option (PropOf Part)}
    (h : ∀ p ∈ given, p.IsWhole faults) : (classNameOf layer given).Completes faults := by
  have literal : ∀ v ∈ given.bind PropOf.literal?, v.IsWhole faults := by
    intro v mem
    obtain ⟨p, found, mem⟩ := Option.bind_eq_some_iff.1 mem
    exact (h p found).literal mem
  refine .get fun m => ?_
  split
  · exact .bind (.ofJob (.ofExcept (styledClassName_meets _ literal))) fun a => .pure _
  · cases given with
    | none => exact .pure _
    | some p => exact .ofJob (plainClassName_completes literal)

theorem childrenOf_completes (id : String) (h : Writable faults p) : (childrenOf id p).Completes faults := by
  obtain ⟨whole, parts⟩ := h
  cases p with
  | literal v => exact .bind (.ofJob (literalChild_completes whole)) fun child => .pure _
  | node part => exact writeAll_completes (by simpa [PropOf.nodes] using parts)
  | reference name => exact .pure _
  | expression t | function t => exact .pure _
  | action a => exact .bind (.note _) fun _ => .pure _
  | many items =>
    simp only [childrenOf]
    split
    · exact writeAll_completes fun part mem => parts part (PropOf.slotNodes_subset _ mem)
    · exact .bind (.note _) fun _ => .pure _
  | raw v => exact .bind (.note _) fun _ => .pure _

theorem importedTag_completes (tag : String) (d : Dependency) : (importedTag tag d).Completes faults := by
  rw [importedTag]
  split
  · exact .pure _
  · exact .bind (addImport_completes d _) fun name => .pure _

theorem elementChildren_complete {layer : NodeOf Part} {written : List (String × PropOf Part)}
    (children : AllComplete faults (layer.children.getD [])) (h : Catalogue.AllProps (Writable faults) written) :
    (elementChildren layer written).Completes faults := by
  rw [elementChildren]
  split
  · next listed => exact writeAll_completes (by simpa [listed] using children)
  · exact childrenOf_completes _ (h _ (givenProp_mem ‹_›))
  · exact .pure _

theorem elementOf_completes {layer : NodeOf Part} (whole : ∀ e ∈ layer.props, e.2.IsWhole faults)
    (below : AllComplete faults layer.below) : (elementOf w layer).Completes faults := by
  have children : AllComplete faults (layer.children.getD []) :=
    fun part mem => below part (List.mem_append_right _ mem)
  have parts := renderedProps_allNodes w (fun p : Part => p.shown ()) (allNodes_below below)
  have wholes := renderedProps_allProps w (Catalogue.isKept_whole (fun p : Part => p.shown ()) faults) trivial whole
  have written : Catalogue.AllProps (Writable faults) _ := fun e mem => ⟨wholes e mem, parts e mem⟩
  refine .bind (.ofJob (tag_gives _ _).completes) fun tag m => ?_
  refine .bind ((writtenProps_value w layer m).mono ?_)
  rintro _ m' rfl
  refine Completes.bind (importedTag_completes tag layer.dependency) (fun tag => ?_) m'
  refine .bind (propAttributes_complete layer.id fun e mem => written e (mem_attributeProps mem)) ?_
  refine fun plain => .bind (classNameOf_completes layer fun p mem => ?_) fun className => ?_
  · exact wholes _ (givenProp_mem mem)
  · exact .bind (elementChildren_complete children written) fun ms => .pure _

/-- A tree whose values are whole can be written. -/
theorem element_completes {n : Node}
    (whole : n.Everywhere fun layer => ∀ e ∈ layer.props, e.2.IsWhole faults) : (element w n).Completes faults := by
  induction whole with
  | @mk layer here _ ih =>
    rw [element_eq]
    refine elementOf_completes (fun e mem => ?_) fun part mem => ?_
    · obtain ⟨e, there, rfl⟩ := NodeOf.mem_props_map.1 mem
      exact (PropOf.isWhole_map _ _).2 (here e there)
    · change part ∈ (layer.map (partOf w)).below at mem
      rw [NodeOf.below_map] at mem
      obtain ⟨n, found, rfl⟩ := List.mem_map.1 mem
      exact ih n found

end Elements

section Pages

variable {w : Writer} {p : Page}

theorem addState_completes (name : String) {initial : Value} (whole : initial.IsWhole faults) :
    (Module.addState name initial).Completes faults := by
  refine fun m => (Module.addState_ensures name initial m).mono ?_
  rintro r m' (⟨-, rfl, -⟩ | ⟨-, ⟨f, stops, rfl⟩, -⟩ | ⟨-, -, rfl, -⟩)
  · trivial
  · exact whole.literalFault stops
  · trivial

theorem writeStates_complete {states : List (String × Value)} (whole : ∀ s ∈ states, s.2.IsWhole faults) :
    (writeStates states).Completes faults := by
  induction states with
  | nil => exact .pure _
  | cons s r ih =>
    obtain ⟨first, rest⟩ := List.forall_mem_cons.1 whole
    exact .bind (addState_completes s.1 first) fun _ => ih rest

theorem writeMethods_complete {methods : List (String × PageMethod)}
    (whole : ∀ m ∈ methods, ∀ state value fromEvent,
      m.2 = .setter state value fromEvent → value.IsWhole faults) : (writeMethods methods).Completes faults := by
  induction methods with
  | nil => exact .pure _
  | cons m r ih =>
    obtain ⟨first, rest⟩ := List.forall_mem_cons.1 whole
    obtain ⟨name, method⟩ := m
    have code : (pageMethod name method).Completes faults fun _ => True := by
      match method with
      | .function _ | .setter _ _ true => exact .pure trivial
      | .setter state value false =>
        exact (first state value false rfl).literal.bind fun _ _ => .pure trivial
    exact .bind (.ofJob code) fun _ => .bind (.modify _) fun _ => ih rest

/-- Writing the module of a page fails over none but the faults of its values. -/
theorem writeMarkup_completes (w : Writer) (h : p.IsWhole faults) : (writeMarkup w p).Completes faults := by
  refine .bind (writeStates_complete h.states) fun _ => ?_
  refine .bind (writeMethods_complete h.methods) fun _ => ?_
  exact .bind (element_completes h.values) fun root => .modify _

theorem writeStyles_completes (p : Page) : (writeStyles p).Completes faults := by
  refine fun m => (writeStyles_ensures p m).mono ?_
  rintro _ _ ⟨rfl, -⟩
  trivial

/-- The values in the classes of a page are those of its styles. -/
theorem FromStyles.sheet {m : Module} (classes : FromStyles p.root m) (h : p.IsWhole faults) :
    Job.Meets faults (· = m.stylesheetText) m.stylesheetText? := by
  rw [Module.stylesheetText?]
  split
  · next long =>
    obtain ⟨e, mem, long⟩ := List.any_eq_true.1 long
    obtain ⟨⟨layer⟩, styled, rfl⟩ := List.mem_map.1 (classes e mem)
    obtain ⟨here, -⟩ := h.styles.walk _ (List.mem_of_mem_filter styled)
    change Value.entriesHoldLongNumber (layer.styles.getD []) = true at long
    cases styles : layer.styles with
    | none =>
      rw [styles] at long
      cases long
    | some ss =>
      rw [styles] at long
      exact here ss styles long
  · exact rfl

end Pages

end Component

/-- Writing parts of a page fails over none but the faults of its values. -/
theorem PagePart.writeAll_completes {faults : Set Fault} (c : Catalogue) (handlers : Handlers) {p : Page}
    (whole : p.IsWhole faults) (parts : List PagePart) : (writeAll c handlers p parts).Completes faults := by
  induction parts with
  | nil => exact .pure _
  | cons part r ih =>
    refine .bind ?_ fun _ => ih
    cases part with
    | styles => exact Component.writeStyles_completes p
    | markup width => exact Component.writeMarkup_completes _ whole

/-- On a new module, writing parts of a page gives a module whose classes are those of its styles, or fails over a
fault of its values. -/
theorem PagePart.runOn_gives {faults : Set Fault} (c : Catalogue) (handlers : Handlers) {p : Page}
    (whole : p.IsWhole faults) (parts : List PagePart) (name : String) :
    (Build.runOn (Module.new name) (writeAll c handlers p parts)).Gives fun r =>
      Job.Meets faults (fun _ => Component.FromStyles p.root r.2) r.1 := by
  have classes := Component.writeAll_fromStyles c handlers p parts (Module.new name) fun e mem => nomatch mem
  have written := (writeAll_completes c handlers whole parts (Module.new name)).and classes
  refine written.runOn.mono ?_
  rintro ⟨r, m⟩ ⟨outcome, classes⟩
  cases r with
  | ok => exact classes
  | error f => exact outcome

end Pagesmith
