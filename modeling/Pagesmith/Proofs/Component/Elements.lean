import Pagesmith.Proofs.Component.Literals
import Pagesmith.Proofs.Module.Shown

/-!
The walk that writes elements gives what is written for the literals on its way: each of them comes to
stand in the markup, or in a function or an effect of the module, and nothing that stands there is
taken away again.
-/

namespace Pagesmith.Component
open Build Pagesmith.Module Text PropOf

section Walk

variable {classes : List (String × String)} {e : Emission}

theorem statement_gives (hs : Handlers) (a : Action) :
    Gives classes e.text.toList (Handlers.statement (hs.get a.kind) a) (e ∈ Emission.ofAction hs a)
      fun s => Holds s e.text.toList := by
  have whole := a.config.isWhole_literalFaults
  rw [Emission.ofAction]
  cases hs.get a.kind with
  | openLink =>
    have url : Gives classes e.text.toList (Build.ofJob (Handlers.textSetting a "url"))
        (e ∈ [Emission.code (Emission.settingText a "url")]) fun s => Holds s e.text.toList := by
      refine .ofJob (.ofExcept ((textSetting_meets whole "url").mono ?_ (Set.Subset.refl _)))
      rintro _ rfl mem
      obtain rfl := List.mem_singleton.1 mem
      exact List.infix_refl _
    exact url.map fun s held => (held.append_left _).append_right _
  | showMessage =>
    exact (addImport_gives _ _).after fun name =>
      .after (.quiet ((messageLevel_gives _).completes.mono (by simp))) fun level =>
      .after (.quiet (.ofExcept ((textSetting_meets whole "text").mono (by simp) (Set.Subset.refl _)))) fun text =>
      .pure (by simp)
  | callMethod =>
    have call := callStatement_completes (callTarget_short whole "methodName")
    exact (Gives.quiet (call.mono (by simp))).mono (by simp) (by simp)
  | unresolved =>
    have read (key : String) : Job.Completes (a.setting key).text? Script.literalFaults fun _ => True :=
      .ofExcept ((setting_meets whole key).mono (by simp) (Set.Subset.refl _))
    exact .after (.quiet (read _)) fun target => .after (.quiet (read _)) fun method => .pure (by simp)
  | log | call =>
    exact .after (.quiet (whole.literal.mono (by simp))) fun settings => .pure (by simp)

theorem labelled_gives (hs : Handlers) (actions : List Action) :
    Gives classes e.text.toList (hs.labelled actions) (∃ a ∈ actions, e ∈ Emission.ofAction hs a)
      fun ss => ∃ s ∈ ss, Holds s e.text.toList := by
  induction actions with
  | nil => exact .pure (by simp)
  | cons a r ih =>
    refine ((statement_gives hs a).both ih ?_).mono (by simp) fun _ => id
    rintro first rest (held | ⟨s, mem, held⟩)
    · exact ⟨_, List.mem_cons_self, held.append_left _⟩
    · exact ⟨s, List.mem_cons_of_mem _ mem, held⟩

theorem statements_gives (hs : Handlers) (actions : List Action) :
    Gives classes e.text.toList (hs.statements actions) (∃ a ∈ actions, e ∈ Emission.ofAction hs a)
      fun ss => ∃ s ∈ ss, Holds s e.text.toList := by
  rw [Handlers.statements.eq_def]
  split
  · next a =>
    refine ((statement_gives hs a).map ?_).mono (by simp) fun _ => id
    exact fun only held => ⟨only, List.mem_singleton.2 rfl, held⟩
  · exact labelled_gives hs actions

theorem addImport_methods (fs : List (String × String)) (d : Dependency) (wish : Option String) :
    Keeps (fun m => m.methods = fs) (addImport d wish) := by
  refine fun m same => (addImport_ensures d wish m).mono ?_
  rintro r m' ⟨name, -, ⟨-, -, rfl⟩ | ⟨-, -, rfl⟩ | ⟨-, -, -, rfl⟩⟩
  · exact same
  · exact same
  · exact same

variable (piece : Piece e.text.toList)

include piece in
/-- The event function is new, so its statements are written. -/
theorem eventFunction_gives (w : Writer) (key id : String) (actions : List Action) :
    Gives classes e.text.toList (eventFunction w key id actions)
      (∃ a ∈ actions, e ∈ Emission.ofAction w.handlers a) fun _ => False := by
  intro m ready
  refine .bind ((uniqueName_ensures _ m).mono ?_)
  rintro _ _ ⟨name, rfl, first, rfl⟩
  have new : name ∉ m.methods.map (·.1) := by
    intro mem
    obtain ⟨f, found, rfl⟩ := List.mem_map.1 mem
    exact first.free (ready.sound.methods f found)
  have ready' : Ready classes (m.reserve [name]) := ⟨ready.sound.reserve _, ready.classes⟩
  have written := statements_gives (e := e) w.handlers actions _ ready'
  have kept := statements_keeps (addImport_methods m.methods _) w.handlers actions (m.reserve [name])
    rfl
  refine .bind ((written.and kept).mono ?_)
  rintro r m' ⟨result, same⟩
  cases r with
  | error f => exact result
  | ok statements =>
    obtain ⟨ready, shows⟩ := result
    refine .bind (.modify (.pure ?_))
    obtain ⟨ready', more⟩ := ready.addMethod name (Script.arrowFunction name "" statements)
    refine ⟨ready', fun shown => .inr (more ?_)⟩
    obtain ⟨s, mem, held⟩ | shown := shows shown
    · exact .inl ⟨Script.holds_arrowFunction piece held mem name "", by rwa [same]⟩
    · exact .inr shown

/-- Writing the part shows the piece. -/
def Tells (classes : List (String × String)) (e : Emission) (part : Part) : Prop :=
  Gives classes e.text.toList part.write True (Markup.Shows e.text.toList)

/-- Writing the part loses nothing of the piece. -/
def Safe (classes : List (String × String)) (e : Emission) (part : Part) : Prop :=
  Gives classes e.text.toList part.write False (Markup.Shows e.text.toList)

theorem writeAll_gives {ps : List Part} (parts : ∀ p ∈ ps, Safe classes e p) :
    Gives classes e.text.toList (writeAll ps) (∃ p ∈ ps, Tells classes e p)
      fun ms => ∃ m ∈ ms, m.Shows e.text.toList := by
  induction ps with
  | nil => exact .pure (by simp)
  | cons p r ih =>
    have rest := ih fun q mem => parts q (by simp [mem])
    have first := (parts p (by simp)).itself
    refine (first.both rest ?_).mono (by simp [Tells]) fun _ => id
    rintro m more (shown | ⟨m', mem, shown⟩)
    · exact ⟨m, List.mem_cons_self, shown⟩
    · exact ⟨m', List.mem_cons_of_mem _ mem, shown⟩

include piece in
theorem propAttribute_gives (w : Writer) (nodeId key : String) {p : PropOf Part}
    (parts : ∀ part ∈ p.nodes, Safe classes e part) :
    Gives classes e.text.toList (propAttribute w nodeId key p)
      (e ∈ Emission.ofProp w.handlers p ∨ ∃ part ∈ p.slotNodes, Tells classes e part)
      fun a => ∃ x ∈ a.toList, Holds x.render e.text.toList := by
  have event (actions : List Action) : Gives classes e.text.toList
      (do return some (⟨key, .code (← eventFunction w key nodeId actions)⟩ : Attribute))
      (∃ a ∈ actions, e ∈ Emission.ofAction w.handlers a)
      fun a => ∃ x ∈ a.toList, Holds x.render e.text.toList :=
    (eventFunction_gives piece w key nodeId actions).map fun name => False.elim
  have markup (m : Markup) (shown : m.Shows e.text.toList) :
      ∃ x ∈ (some (⟨key, .code (w.text m)⟩ : Attribute)).toList, Holds x.render e.text.toList :=
    ⟨_, List.mem_singleton.2 rfl, ((shown.render piece _ _).append_left _).append_right _⟩
  cases p with
  | literal v =>
    have written : Gives classes e.text.toList (Build.ofJob (Markup.literalAttribute key v))
        (e ∈ Emission.ofAttribute v) fun a => Holds a.render e.text.toList :=
      .ofJob ((literalAttribute_completes v.isWhole_literalFaults key).mono fun a shows => shows e)
    refine (written.map ?_).mono (by simp [slotNodes, Emission.ofProp]) fun _ => id
    exact fun a held => ⟨a, List.mem_singleton.2 rfl, held⟩
  | reference | expression | function => exact .pure (by simp [slotNodes, Emission.ofProp])
  | action a => exact (event [a]).mono (by simp [slotNodes, Emission.ofProp]) fun _ => id
  | node part =>
    have element := (parts part (by simp [nodes])).itself
    refine (element.map ?_).mono (by simp [slotNodes, Emission.ofProp, Tells]) fun _ => id
    exact markup
  | many items =>
    simp only [propAttribute]
    split
    · next actions =>
      refine (event _).mono ?_ fun _ => id
      simp [Emission.ofProp, actions, slotNodes_actionList actions]
    · next other =>
      rw [Emission.ofProp, if_neg other]
      split
      · have elements : Gives classes e.text.toList (writeAll (PropOf.many items).slotNodes) _ _ :=
          writeAll_gives fun part mem => parts part (slotNodes_subset _ mem)
        refine (elements.map ?_).mono (by simp) fun _ => id
        rintro ms ⟨m, mem, shown⟩
        exact markup _ (.inner mem shown)
      · next neither =>
        rw [slotNodes_other (by simpa using neither)]
        exact (Gives.note _).after fun _ => .pure (by simp)
  | raw v =>
    exact (Gives.note _).after fun _ => .pure (by simp [slotNodes, Emission.ofProp])

include piece in
theorem propAttributes_gives (w : Writer) (nodeId : String) {props : List (String × PropOf Part)}
    (parts : Catalogue.AllNodes (Safe classes e) props) :
    Gives classes e.text.toList (propAttributes w nodeId props)
      (e ∈ (props.flatMap fun p => Emission.ofProp w.handlers p.2) ∨
        ∃ part ∈ props.flatMap fun p => p.2.slotNodes, Tells classes e part)
      fun as => ∃ a ∈ as, Holds a.render e.text.toList := by
  induction props with
  | nil => exact .pure (by simp)
  | cons p r ih =>
    have first := propAttribute_gives piece w nodeId p.1 (parts p (by simp))
    have rest := ih fun q mem => parts q (by simp [mem])
    refine (first.both rest ?_).mono ?_ fun _ => id
    · rintro a more (⟨x, mem, held⟩ | ⟨x, mem, held⟩)
      · exact ⟨x, List.mem_append_left _ mem, held⟩
      · exact ⟨x, List.mem_append_right _ mem, held⟩
    · simp only [List.flatMap_cons, List.mem_append, or_and_right, exists_or]
      exact or_or_or_comm.1

theorem classNameOf_gives (layer : NodeOf Part) (p : Option (PropOf Part)) :
    Gives classes e.text.toList (classNameOf layer p)
      (e ∈ Emission.ofClass (isStyled classes layer) p)
      fun a => ∃ x ∈ a.toList, Holds x.render e.text.toList := by
  refine .get fun m ready => ?_
  rw [isStyled, ← ready.classes]
  cases (givenText (m.nodeClasses.lookup layer.id)).or (givenText layer.cssClass) with
  | some cssClass =>
    have beside := styledClassName_meets cssClass fun v (_ : v ∈ p.bind literal?) => v.isWhole_literalFaults
    have written : Gives m.nodeClasses e.text.toList (Build.ofJob (Job.ofExcept (styledClassName cssClass p)))
        (e ∈ Emission.ofClass true p) fun a => Holds a.render e.text.toList :=
      .ofJob (.ofExcept (beside.mono (fun a shows => shows e) (Set.Subset.refl _)))
    have alone (a : Attribute) (held : Holds a.render e.text.toList) :
        ∃ x ∈ (some a).toList, Holds x.render e.text.toList := ⟨a, List.mem_singleton.2 rfl, held⟩
    exact written.map alone
  | none =>
    cases p with
    | none => exact .pure (by simp [Emission.ofClass])
    | some p =>
      have plain := plainClassName_completes fun v (_ : v ∈ p.literal?) => v.isWhole_literalFaults
      exact .ofJob (plain.mono fun a shows => shows e)

theorem childrenOf_gives (nodeId : String) {p : PropOf Part}
    (parts : ∀ part ∈ p.nodes, Safe classes e part) :
    Gives classes e.text.toList (childrenOf nodeId p)
      (e ∈ Emission.ofChildren (some p) ∨ ∃ part ∈ p.slotNodes, Tells classes e part)
      fun ms => ∃ m ∈ ms, m.Shows e.text.toList := by
  have ignored : Gives classes e.text.toList
      (do Build.note (ignoredNotice nodeId p.typeName); pure ([] : List Markup)) False
      fun ms => ∃ m ∈ ms, m.Shows e.text.toList :=
    (Gives.note _).after fun _ => .pure False.elim
  cases p with
  | literal v =>
    have child : Gives classes e.text.toList (Build.ofJob (Markup.literalChild v))
        (e ∈ Emission.ofChild v) fun c => ∃ m ∈ c.toList, m.Shows e.text.toList :=
      .ofJob ((literalChild_completes v.isWhole_literalFaults).mono fun c shows => shows e)
    refine (child.map ?_).mono (by simp [slotNodes, Emission.ofChildren]) fun _ => id
    exact fun c => id
  | reference | expression | function => exact .pure (by simp [slotNodes, Emission.ofChildren])
  | node part =>
    have one : Gives classes e.text.toList (writeAll [part]) _ _ :=
      writeAll_gives (by simpa [nodes] using parts)
    exact one.mono (by simp [slotNodes, Emission.ofChildren]) fun _ => id
  | many items =>
    simp only [childrenOf]
    split
    · have elements : Gives classes e.text.toList (writeAll (PropOf.many items).slotNodes) _ _ :=
        writeAll_gives fun part mem => parts part (slotNodes_subset _ mem)
      exact elements.mono (by simp [Emission.ofChildren]) fun _ => id
    · next other =>
      refine ignored.mono ?_ fun _ => id
      simp [Emission.ofChildren, slotNodes_other (by simpa using other)]
  | action | raw => exact ignored.mono (by simp [slotNodes, Emission.ofChildren]) fun _ => id

theorem elementChildren_gives {layer : NodeOf Part} {written : List (String × PropOf Part)}
    (children : ∀ part ∈ layer.children.getD [], Safe classes e part)
    (props : Catalogue.AllNodes (Safe classes e) written) :
    Gives classes e.text.toList (elementChildren layer written)
      (e ∈ (if listsChildren layer then []
          else Emission.ofChildren (givenProp "children" written)) ∨
        ∃ part ∈ (if listsChildren layer then layer.children.getD []
          else ((givenProp "children" written).map slotNodes).getD []), Tells classes e part)
      fun ms => ∃ m ∈ ms, m.Shows e.text.toList := by
  rw [elementChildren]
  split
  · next listed =>
    have lists : listsChildren layer = true := by rw [listsChildren, listed]
    have all : Gives classes e.text.toList (writeAll (layer.children.getD [])) _ _ :=
      writeAll_gives children
    rw [listed] at all
    exact all.mono (by simp [lists, listed]) fun _ => id
  · next found unlisted =>
    have lists := listsChildren_eq_false unlisted
    have given : Gives classes e.text.toList (childrenOf layer.id _) _ _ :=
      childrenOf_gives layer.id (props _ (givenProp_mem found))
    exact given.mono (by simp [lists, found]) fun _ => id
  · next found unlisted =>
    have lists := listsChildren_eq_false unlisted
    exact .pure (by simp [lists, found, Emission.ofChildren])

theorem loadRows_gives (nodeId url : String) :
    Gives classes e.text.toList (loadRows nodeId url) (e = .code url) fun _ => False := by
  refine (addState_gives _ _).after fun _ => ?_
  refine ((addEffect_gives _).map fun _ => id).mono ?_ fun _ => id
  rintro rfl
  exact Script.holds_fetchEffect (List.infix_refl _) _

theorem writtenProps_gives (rule : Rendering) (layer : NodeOf Part) :
    Gives classes e.text.toList (writtenProps rule layer)
      (e ∈ ((rowsAddress rule layer).map Emission.code).toList) fun _ => False := by
  rw [writtenProps]
  cases rowsAddress rule layer with
  | none => exact .pure (by simp)
  | some url => exact ((loadRows_gives _ url).map fun _ => id).mono (by simp) fun _ => id

theorem importedTag_gives (tag : String) (d : Dependency) :
    Gives classes e.text.toList (importedTag tag d) False fun _ => False := by
  rw [importedTag]
  split
  · exact .pure id
  · exact (addImport_gives _ _).after fun name => .pure id

include piece in
/-- A node gives what is written for its own data and for the nodes written with it. -/
theorem elementOf_gives (w : Writer) {layer : NodeOf Part}
    (below : ∀ part ∈ layer.below, Safe classes e part) :
    Gives classes e.text.toList (elementOf w layer)
      (e ∈ ownEmissions w classes (fun p => p.shown ()) layer ∨
        ∃ part ∈ writtenBelow w (fun p => p.shown ()) layer, Tells classes e part)
      (Markup.Shows e.text.toList) := by
  have props := allNodes_below below
  have children : ∀ part ∈ layer.children.getD [], Safe classes e part :=
    fun part mem => below part (List.mem_append_right _ mem)
  have rendered := renderedProps_allNodes w (fun p : Part => p.shown ()) props
  have rows : Gives classes e.text.toList _ _ _ := writtenProps_gives (w.rule layer) layer
  have attributes := propAttributes_gives piece w layer.id fun p mem =>
    rendered p (mem_attributeProps mem)
  have ownClass : Gives classes e.text.toList _ _ _ := classNameOf_gives layer
    (givenProp "className" (renderedProps w (fun p => p.shown ()) layer))
  have inner := elementChildren_gives children rendered
  refine .after (.quiet (tag_gives _ _).completes) fun tag => ?_
  refine (rows.chain_value (writtenProps_value w layer) (.after (importedTag_gives tag _) fun tag =>
    attributes.chain (G := _ ∨ _) fun plain => Gives.mono (ownClass.chain fun className =>
      Gives.mono (inner.chain fun ms => .pure ?_) (fun h => (or_assoc.2 h).symm) fun _ => id)
        or_left_comm.1 fun _ => id)).mono ?_ fun _ => id
  · rintro (⟨m, mem, shown⟩ | ⟨a, mem, held⟩ | ⟨a, mem, held⟩)
    · exact .inner mem shown
    · exact .own (List.mem_append_right _ mem) held
    · exact .own (List.mem_append_left _ mem) held
  · rintro (mem | ⟨part, mem, tells⟩)
    · simp only [ownEmissions, List.mem_append] at mem
      obtain ((mem | mem) | mem) | mem := mem
      · exact .inl mem
      · exact .inr (.inl (.inl mem))
      · exact .inr (.inr (.inl mem))
      · exact .inr (.inr (.inr (.inl mem)))
    · simp only [writtenBelow, writtenWith, List.mem_append] at mem
      obtain mem | mem := mem
      · exact .inr (.inl (.inr ⟨part, mem, tells⟩))
      · exact .inr (.inr (.inr (.inr ⟨part, mem, tells⟩)))

include piece in
theorem element_gives (w : Writer) (n : Node) :
    Gives classes e.text.toList (element w n) (Emits w classes n e)
      (Markup.Shows e.text.toList) := by
  have shown (n : Node) : (partOf w n).shown () = n.shown := rfl
  induction n using Node.induction with
  | step n below =>
    have parts : ∀ part ∈ (n.layer.map (partOf w)).below, Safe classes e part := by
      intro part mem
      rw [NodeOf.below_map] at mem
      obtain ⟨n', found, rfl⟩ := List.mem_map.1 mem
      exact (below n' found).mono False.elim fun _ => id
    rw [element_eq]
    refine (elementOf_gives piece w parts).mono ?_ fun _ => id
    rw [ownEmissions_map w classes (partOf w) shown, writtenBelow_map w (partOf w) shown]
    intro emits
    cases emits with
    | own mem => exact .inl mem
    | @inner n n' e mem more =>
      have inside := writtenBelow_subset w Node.shown _ mem
      have tells : Tells classes e (partOf w n') := (below n' inside).mono (fun _ => more) fun _ => id
      exact .inr ⟨partOf w n', List.mem_map_of_mem mem, tells⟩

end Walk

end Pagesmith.Component
