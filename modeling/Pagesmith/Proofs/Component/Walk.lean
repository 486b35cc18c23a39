import Pagesmith.Component.Element
import Pagesmith.Proofs.Catalogue.Written
import Pagesmith.Proofs.Module.Reachable
import Pagesmith.Proofs.Page.Walk

/-!
The walk that writes elements. An element is made from the node's own data over the parts of the
nodes below it, so what one node's data does to a module, together with what the parts do, settles
what the whole walk does.
-/

namespace Pagesmith.Component
open Build PropOf

/-- A node as a part. -/
def partOf (w : Writer) (n : Node) : Part := ⟨fun _ => n.shown, element w n⟩

mutual

theorem partOfProp_eq (w : Writer) (p : PropOf Node) : partOfProp w p = p.map (partOf w) := by
  match p with
  | .many items => simp only [partOfProp, PropOf.map, partsOfItems_eq w items]
  | .literal _ | .reference _ | .expression _ | .function _ | .action _ | .node _ | .raw _ =>
    simp only [partOfProp, PropOf.map, partOf]

theorem partsOfItems_eq (w : Writer) (items : List (PropOf Node)) :
    partsOfItems w items = mapAll (partOf w) items := by
  match items with
  | [] => simp only [partsOfItems, mapAll]
  | p :: r => simp only [partsOfItems, mapAll, partOfProp_eq w p, partsOfItems_eq w r]

end

theorem partsOfProps_eq (w : Writer) (props : List (String × PropOf Node)) :
    partsOfProps w props = props.map fun e => (e.1, e.2.map (partOf w)) := by
  induction props with
  | nil => rw [partsOfProps, List.map_nil]
  | cons e r ih =>
    obtain ⟨k, p⟩ := e
    rw [partsOfProps, ih, partOfProp_eq, List.map_cons]

theorem parts_eq (w : Writer) (ns : List Node) : parts w ns = ns.map (partOf w) := by
  induction ns with
  | nil => rw [parts, List.map_nil]
  | cons n r ih => rw [parts, ih, List.map_cons, partOf]

theorem partsOfChildren_eq (w : Writer) (children : Option (List Node)) :
    partsOfChildren w children = children.map (·.map (partOf w)) := by
  cases children with
  | none => rw [partsOfChildren, Option.map_none]
  | some ns => rw [partsOfChildren, parts_eq, Option.map_some]

theorem element_eq (w : Writer) (n : Node) : element w n = elementOf w (n.layer.map (partOf w)) := by
  obtain ⟨id, component, dependency, props, schemaName, children, styles, cssClass⟩ := n
  rw [element, partsOfProps_eq, partsOfChildren_eq]
  rfl

section Rendered

variable {ν μ : Type}

section Rows

variable (f : ν → μ)

theorem rowsUrl?_map (props : List (String × PropOf ν)) :
    Catalogue.rowsUrl? (Table.mapValues (PropOf.map f) props) = Catalogue.rowsUrl? props := by
  simp only [Catalogue.rowsUrl?, Table.lookup_mapValues, Table.has_mapValues]
  cases props.lookup "url" with
  | none => rfl
  | some p =>
    cases p with
    | literal v => cases v <;> rfl
    | _ => rfl

theorem rowsAddress_map (rule : Rendering) (layer : NodeOf ν) :
    rowsAddress rule (layer.map f) = rowsAddress rule layer := by
  have same : Catalogue.rowsUrl? (layer.map f).props = Catalogue.rowsUrl? layer.props :=
    rowsUrl?_map f layer.props
  rw [rowsAddress, rowsAddress, same]

end Rows

/-- The properties that are written for a node, with the reference to the rows it loads. -/
def renderedProps (w : Writer) (showNode : ν → String) (layer : NodeOf ν) :
    List (String × PropOf ν) :=
  let written := Catalogue.written showNode (w.rule layer).steps layer.id layer.props
  match rowsAddress (w.rule layer) layer with
  | some _ => Table.insert "dataSource" (.reference (rowsState layer.id)) written
  | none => written

theorem allNodes_below {P : ν → Prop} {layer : NodeOf ν} (below : ∀ n ∈ layer.below, P n) :
    Catalogue.AllNodes P layer.props := by
  intro e mem n carried
  exact below n (List.mem_append_left _ (List.mem_flatMap.2 ⟨e, mem, carried⟩))

theorem renderedProps_allProps {Q : PropOf ν → Prop} (w : Writer) {showNode : ν → String}
    (kept : Catalogue.IsKept showNode Q) {layer : NodeOf ν} (rows : Q (.reference (rowsState layer.id)))
    (h : Catalogue.AllProps Q layer.props) : Catalogue.AllProps Q (renderedProps w showNode layer) := by
  have written := Catalogue.written_allProps kept (w.rule layer).steps layer.id h
  rw [renderedProps]
  split
  · exact written.insert _ rows
  · exact written

theorem renderedProps_allNodes {P : ν → Prop} (w : Writer) (showNode : ν → String)
    {layer : NodeOf ν} (h : Catalogue.AllNodes P layer.props) :
    Catalogue.AllNodes P (renderedProps w showNode layer) :=
  renderedProps_allProps w (Catalogue.isKept_nodes showNode P) (fun _ mem => nomatch mem) h

theorem loadRows_value (id url : String) (m : Module) :
    (loadRows id url).Ensures m fun r _ => r = .ok (rowsState id) := by
  refine .bind ((Module.addState_ensures _ _ m).mono ?_)
  have written : Script.literalFault? (.list []) = none := by
    simp [Script.literalFault?, Value.obstacles, Value.obstaclesOfItems]
  rintro r m' (⟨-, rfl, -⟩ | ⟨-, ⟨f, stops, -⟩, -⟩ | ⟨-, -, rfl, -⟩)
  · exact .bind (.modify (.pure rfl))
  · cases written.symm.trans stops
  · exact .bind (.modify (.pure rfl))

theorem writtenProps_value (w : Writer) (layer : NodeOf Part) (m : Module) :
    (writtenProps (w.rule layer) layer).Ensures m fun r _ =>
      r = .ok (renderedProps w (fun p => p.shown ()) layer) := by
  rw [writtenProps, renderedProps]
  cases rowsAddress (w.rule layer) layer with
  | none => exact .pure rfl
  | some url =>
    refine .bind ((loadRows_value _ _ m).mono ?_)
    rintro r m' rfl
    exact .pure rfl

end Rendered

section Keeps

variable {I : Module → Prop}

theorem writeAll_keeps {ps : List Part} (parts : ∀ p ∈ ps, Keeps I p.write) :
    Keeps I (writeAll ps) := by
  induction ps with
  | nil => exact .pure []
  | cons p r ih =>
    have rest := ih fun q mem => parts q (by simp [mem])
    exact .bind (parts p (by simp)) fun first => .bind rest fun more => .pure _

variable {w : Writer}

theorem propAttribute_keeps
    (events : ∀ key id actions, Keeps I (eventFunction w key id actions)) (id key : String)
    {p : PropOf Part} (parts : ∀ part ∈ p.nodes, Keeps I part.write) :
    Keeps I (propAttribute w id key p) := by
  cases p with
  | literal v => exact .bind (.ofJob _) fun a => .pure _
  | reference name => exact .pure _
  | expression t | function t => exact .pure _
  | action a => exact .bind (events key id [a]) fun name => .pure _
  | node part => exact .bind (parts part (by simp [nodes])) fun m => .pure _
  | many items =>
    simp only [propAttribute]
    split
    · exact .bind (events key id _) fun name => .pure _
    · split
      · have slots := writeAll_keeps fun part mem => parts part (slotNodes_subset _ mem)
        exact .bind slots fun ms => .pure _
      · exact .bind (.note _) fun _ => .pure _
  | raw v => exact .bind (.note _) fun _ => .pure _

theorem propAttributes_keeps
    (events : ∀ key id actions, Keeps I (eventFunction w key id actions)) (id : String)
    {props : List (String × PropOf Part)}
    (parts : Catalogue.AllNodes (fun part => Keeps I part.write) props) :
    Keeps I (propAttributes w id props) := by
  induction props with
  | nil => exact .pure _
  | cons e r ih =>
    have first := propAttribute_keeps events id e.1 (parts e (by simp))
    have rest := ih fun e mem => parts e (by simp [mem])
    exact .bind first fun a => .bind rest fun more => .pure _

theorem classNameOf_keeps (layer : NodeOf Part) (p : Option (PropOf Part)) :
    Keeps I (classNameOf layer p) := by
  refine .get fun m => ?_
  split
  · exact .bind (.ofJob _) fun given => .pure _
  · cases p with
    | none => exact .pure _
    | some p => exact .ofJob _

theorem childrenOf_keeps (id : String) {p : PropOf Part}
    (parts : ∀ part ∈ p.nodes, Keeps I part.write) : Keeps I (childrenOf id p) := by
  cases p with
  | literal v => exact .bind (.ofJob _) fun child => .pure _
  | node part => exact writeAll_keeps (by simpa [nodes] using parts)
  | reference name => exact .pure _
  | expression t | function t => exact .pure _
  | action a => exact .bind (.note _) fun _ => .pure _
  | many items =>
    simp only [childrenOf]
    split
    · exact writeAll_keeps fun part mem => parts part (slotNodes_subset _ mem)
    · exact .bind (.note _) fun _ => .pure _
  | raw v => exact .bind (.note _) fun _ => .pure _

theorem importedTag_keeps {d : Dependency} (imports : ∀ wish, Keeps I (Module.addImport d wish))
    (tag : String) : Keeps I (importedTag tag d) := by
  rw [importedTag]
  split
  · exact .pure _
  · exact .bind (imports _) fun name => .pure _

theorem givenProp_mem {ν : Type} {key : String} {props : List (String × PropOf ν)} {p : PropOf ν}
    (h : givenProp key props = some p) : (key, p) ∈ props := by
  rw [givenProp] at h
  split at h
  · contradiction
  · exact Table.mem_of_lookup h

theorem writtenProps_keeps {rule : Rendering} {layer : NodeOf Part}
    (rows : ∀ url, rowsAddress rule layer = some url → Keeps I (loadRows layer.id url)) :
    Keeps I (writtenProps rule layer) := by
  rw [writtenProps]
  split
  · next found => exact .bind (rows _ found) fun state => .pure _
  · exact .pure _

theorem mem_attributeProps {ν : Type} {props : List (String × PropOf ν)} {e : String × PropOf ν}
    (h : e ∈ attributeProps props) : e ∈ props :=
  List.mem_of_mem_filter (List.mem_of_mem_filter h)

theorem elementChildren_keeps {layer : NodeOf Part} {written : List (String × PropOf Part)}
    (children : ∀ part ∈ layer.children.getD [], Keeps I part.write)
    (props : Catalogue.AllNodes (fun part => Keeps I part.write) written) :
    Keeps I (elementChildren layer written) := by
  rw [elementChildren]
  split
  · next listed => exact writeAll_keeps (by simpa [listed] using children)
  · next given => exact childrenOf_keeps _ (props _ (givenProp_mem ‹_›))
  · exact .pure _

section Statements

variable (message : ∀ wish, Keeps I (Module.addImport Handlers.messageImport wish))
include message

theorem statement_keeps (h : Handler) (a : Action) : Keeps I (Handlers.statement h a) := by
  cases h with
  | openLink => exact .bind (.ofJob _) fun url => .pure _
  | showMessage =>
    exact .bind (message _) fun name => .bind (.ofJob _) fun level => .bind (.ofJob _) fun text => .pure _
  | callMethod => exact .ofJob _
  | unresolved => exact .bind (.ofJob _) fun target => .bind (.ofJob _) fun method => .pure _
  | log | call f => exact .bind (.ofJob _) fun settings => .pure _

theorem labelled_keeps (hs : Handlers) (actions : List Action) : Keeps I (hs.labelled actions) := by
  induction actions with
  | nil => exact .pure _
  | cons a r ih => exact .bind (statement_keeps message _ a) fun first => .bind ih fun rest => .pure _

theorem statements_keeps (hs : Handlers) (actions : List Action) : Keeps I (hs.statements actions) := by
  rw [Handlers.statements.eq_def]
  split
  · exact .bind (statement_keeps message _ _) fun only => .pure _
  · exact labelled_keeps message hs _

end Statements

theorem elementAs_keeps (events : ∀ key id actions, Keeps I (eventFunction w key id actions))
    {layer : NodeOf Part} (imports : ∀ wish, Keeps I (Module.addImport layer.dependency wish))
    (children : ∀ part ∈ layer.children.getD [], Keeps I part.write) {written : List (String × PropOf Part)}
    (props : Catalogue.AllNodes (fun part => Keeps I part.write) written) (tag : String) :
    Keeps I (elementAs w tag layer written) :=
  .bind (importedTag_keeps imports tag) fun _ =>
    .bind (propAttributes_keeps events layer.id fun e mem => props e (mem_attributeProps mem)) fun _ =>
    .bind (classNameOf_keeps layer _) fun _ => .bind (elementChildren_keeps children props) fun _ => .pure _

/-- What the import and the rows of a node and event functions keep, its element keeps. -/
theorem elementOf_keeps (events : ∀ key id actions, Keeps I (eventFunction w key id actions))
    {layer : NodeOf Part} (imports : ∀ wish, Keeps I (Module.addImport layer.dependency wish))
    (rows : ∀ url, rowsAddress (w.rule layer) layer = some url → Keeps I (loadRows layer.id url))
    (below : ∀ part ∈ layer.below, Keeps I part.write) : Keeps I (elementOf w layer) := by
  have props := allNodes_below below
  have children : ∀ part ∈ layer.children.getD [], Keeps I part.write :=
    fun part mem => below part (List.mem_append_right _ mem)
  refine .bind (.ofJob _) fun tag m h => ?_
  have written := writtenProps_keeps rows m h
  refine .bind ((written.and (writtenProps_value w layer m)).mono ?_)
  rintro _ m' ⟨h', rfl⟩
  exact elementAs_keeps events imports children (renderedProps_allNodes w (fun p : Part => p.shown ()) props) tag m' h'

/-- What writing the node itself keeps: its import, and the rows that it loads. -/
structure KeepsOwn (w : Writer) (I : Module → Prop) (layer : NodeOf Node) : Prop where
  imports : ∀ wish, Keeps I (Module.addImport layer.dependency wish)
  rows : ∀ url, rowsAddress (w.rule layer) layer = some url → Keeps I (loadRows layer.id url)

/-- What each node of a tree keeps, and event functions, the whole walk keeps. -/
theorem element_keeps_own (events : ∀ key id actions, Keeps I (eventFunction w key id actions))
    {n : Node} (own : n.Everywhere (KeepsOwn w I)) : Keeps I (element w n) := by
  induction own with
  | @mk layer here _ ih =>
    rw [element_eq]
    refine elementOf_keeps events here.imports ?_ fun part mem => ?_
    · intro url found
      change rowsAddress (w.rule layer) (layer.map (partOf w)) = some url at found
      rw [rowsAddress_map] at found
      exact here.rows url found
    · change part ∈ (layer.map (partOf w)).below at mem
      rw [NodeOf.below_map] at mem
      obtain ⟨n', found, rfl⟩ := List.mem_map.1 mem
      exact ih n' found

variable (imports : ∀ d wish, Keeps I (Module.addImport d wish))
  (events : ∀ key id actions, Keeps I (eventFunction w key id actions))
include imports events

/-- What the rows of the nodes of a tree keep, and imports and event functions, the whole walk
keeps. -/
theorem element_keeps_rows {n : Node} (rows : n.Everywhere fun layer =>
      ∀ url, rowsAddress (w.rule layer) layer = some url → Keeps I (loadRows layer.id url)) :
    Keeps I (element w n) :=
  element_keeps_own events (rows.mono fun _ rows => ⟨imports _, rows⟩)

theorem element_keeps (rows : ∀ id url, Keeps I (loadRows id url)) (n : Node) :
    Keeps I (element w n) :=
  element_keeps_rows imports events
    (Node.everywhere_of_forall (fun layer url _ => rows layer.id url) n)

end Keeps

section Lasts

variable {I : Module → Prop} (lasts : Module.Lasts I)
include lasts

theorem addImport_lasts (d : Dependency) (wish : Option String) : Keeps I (Module.addImport d wish) :=
  fun _ h log => lasts _ _ (.addImport d wish log) h

theorem eventFunction_lasts (w : Writer) (key id : String) (actions : List Action) :
    Keeps I (eventFunction w key id actions) :=
  .bind (fun _ h log => lasts _ _ (.uniqueName _ log) h) fun name =>
    .bind (statements_keeps (addImport_lasts lasts _) _ _) fun _ =>
    .bind (.modify fun _ h => lasts _ _ (.addMethod name _) h) fun _ => .pure name

theorem loadRows_lasts (id url : String) : Keeps I (loadRows id url) :=
  .bind (fun _ h log => lasts _ _ (.addState _ _ log) h) fun _ =>
    .bind (.modify fun _ h => lasts _ _ (.addEffect _) h) fun _ => .pure _

/-- What lasts while a module is written lasts while a page is. -/
theorem writePage_lasts {root : Build Markup} (written : Keeps I root) (w : Writer) (p : Page) :
    Keeps I (writePage w p root) := by
  have states (ss : List (String × Value)) : Keeps I (writeStates ss) := by
    induction ss with
    | nil => exact .pure _
    | cons s r ih => exact .bind (fun _ h log => lasts _ _ (.addState _ _ log) h) fun _ => ih
  have methods (fs : List (String × PageMethod)) : Keeps I (writeMethods fs) := by
    induction fs with
    | nil => exact .pure _
    | cons f r ih =>
      exact .bind (.ofJob _) fun code => .bind (.modify fun _ h => lasts _ _ (.addMethod _ code) h) fun _ => ih
  exact .bind (states _) fun _ => .bind (methods _) fun _ => .bind written fun _ =>
    .modify fun _ h => lasts _ _ (.setMarkup _) h

theorem writeMarkup_lasts (w : Writer) (p : Page) : Keeps I (writeMarkup w p) :=
  writePage_lasts lasts
    (element_keeps (addImport_lasts lasts) (eventFunction_lasts lasts w) (loadRows_lasts lasts) p.root) w p

end Lasts

end Pagesmith.Component
