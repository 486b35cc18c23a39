import Pagesmith.Proofs.Component.Bindings
import Pagesmith.Proofs.Component.Classes
import Pagesmith.Proofs.Module.Sources

/-!
The sources that the module of a page imports from. Every component takes its import from one of a few
sources, and so do messages; the style sheet of a module is its own, and there is one exactly if a class is
defined.
-/

namespace Pagesmith

/-- Where pages import from, besides the view library and their style sheets. -/
def pageSources : List String := ["antd", Catalogue.iconPackage, "@/components/Page", "@/components"]

/-- What is imported, if anything, comes from a source for pages and is named by an identifier. -/
def Dependency.IsSupplied (d : Dependency) : Prop :=
  d.source = "" ∨ d.source ∈ pageSources ∧ ∀ x ∈ givenText d.exportName, Text.isIdentifier x = true

theorem Catalogue.iconName_isIdentifier (v : Value) : Text.isIdentifier (Catalogue.iconName v) = true := by
  have default : Text.isIdentifier Catalogue.defaultIcon = true := by decide
  cases v with
  | str s =>
    dsimp only [Catalogue.iconName]
    split
    · assumption
    · exact default
  | _ => exact default

namespace Component
open Build Pagesmith.Module Text

/-- The property lasts when more names are taken, whatever becomes of states, effects, functions and markup. -/
def OutlastsCode (I : Module → Prop) : Prop := ∀ m reserved states effects methods markup, m.reserved ⊆ reserved →
  I m → I { m with reserved := reserved, states := states, effects := effects, methods := methods, markup := markup }

namespace OutlastsCode

variable {I : Module → Prop} (h : OutlastsCode I)
include h

theorem addState (name : String) (initial : Value) : Keeps I (addState name initial) := by
  refine fun m holds => (addState_ensures name initial m).mono ?_
  have more : m.reserved ⊆ (m.reserve [name, setterName name]).reserved := reserve_subset _ m
  rintro r m' (⟨-, -, rfl⟩ | ⟨-, -, -, rfl⟩ | ⟨-, -, -, rfl⟩)
  · exact holds
  · exact h m _ m.states m.effects m.methods m.markup more holds
  · exact h m _ _ m.effects m.methods m.markup more holds

theorem addMethod (name code : String) {m : Module} (holds : I m) : I (addMethod name code m) := by
  rw [Module.addMethod]
  split
  · exact holds
  · exact h m _ m.states m.effects _ m.markup (reserve_subset [name] m) holds

theorem loadRows (id url : String) : Keeps I (loadRows id url) := by
  refine .bind (h.addState _ _) fun _ => .bind (.modify fun m holds => ?_) fun _ => .pure _
  rw [addEffect]
  split
  · exact holds
  · exact h m m.reserved m.states _ m.methods m.markup (List.Subset.refl _) holds

theorem writeStates (states : List (String × Value)) : Keeps I (writeStates states) := by
  induction states with
  | nil => exact .pure _
  | cons s r ih => exact .bind (h.addState _ _) fun _ => ih

theorem writeMethods (methods : List (String × PageMethod)) : Keeps I (writeMethods methods) := by
  induction methods with
  | nil => exact .pure _
  | cons f r ih => exact .bind (.ofJob _) fun _ => .bind (.modify fun _ => h.addMethod _ _) fun _ => ih

variable (message : ∀ wish, Keeps I (addImport Handlers.messageImport wish)) (w : Writer)
include message

theorem eventFunction (key id : String) (actions : List Action) :
    Keeps I (eventFunction w key id actions) := by
  refine .bind (fun m holds => (uniqueName_ensures _ m).mono ?_) fun name =>
    .bind (statements_keeps message _ _) fun _ => .bind (.modify fun _ => h.addMethod _ _) fun _ => .pure _
  rintro r m' ⟨name, -, -, rfl⟩
  exact h m _ m.states m.effects m.methods m.markup (reserve_subset [name] m) holds

/-- The markup of a page keeps what its imports keep. -/
theorem writeMarkup {p : Page}
    (imports : p.root.Everywhere fun layer => ∀ wish, Keeps I (addImport layer.dependency wish)) :
    Keeps I (writeMarkup w p) := by
  have root : Keeps I (element w p.root) :=
    element_keeps_own (h.eventFunction message w) <| imports.mono fun layer own =>
      ⟨own, fun url _ => h.loadRows layer.id url⟩
  refine .bind (h.writeStates _) fun _ => .bind (h.writeMethods _) fun _ => .bind root fun _ => ?_
  exact .modify fun m => h m m.reserved m.states m.effects m.methods _ (List.Subset.refl _)

end OutlastsCode

/-- All imports come from sources for pages, and their lines can be read. -/
def Stocked (m : Module) : Prop := ∀ e : Entry, e ∈ m.imports → e.1 ∈ pageSources ∧ e.Listed

theorem listed_add {source : String} {e : ImportEntry} (h : Entry.Listed (source, e)) {d : Dependency}
    {x name : String} (exported : isIdentifier x = true) (isName : IsName name) :
    Entry.Listed (source, ImportEntry.add e d x name) := by
  rw [ImportEntry.add]
  split
  · refine ⟨h.main, fun b mem => ?_⟩
    obtain rfl | mem := Table.eq_or_mem_of_mem_insert mem
    · exact ⟨exported, isName⟩
    · exact h.named b mem
  · refine ⟨fun n mem => ?_, h.named⟩
    obtain given | ⟨-, given⟩ := Option.or_eq_some_iff.1 mem
    · exact h.main n given
    · exact Option.some.inj given ▸ isName

theorem isIdentifier_exportOf {d : Dependency} (h : ∀ x ∈ givenText d.exportName, isIdentifier x = true)
    (wish : Option String) : isIdentifier (exportOf d (desiredName d wish)) = true := by
  rw [exportOf]
  split
  · cases given : givenText d.exportName with
    | none => exact (isName_desiredName d wish).isIdentifier
    | some x => exact h x given
  · decide

theorem addImport_stocked {d : Dependency} (h : d.IsSupplied) (wish : Option String) :
    Keeps Stocked (addImport d wish) := by
  refine fun m stocked => (addImport_ensures d wish m).mono ?_
  rintro r m' ⟨name, -, ⟨-, -, rfl⟩ | ⟨-, -, rfl⟩ | ⟨source, -, first, rfl⟩⟩
  · exact stocked
  · exact stocked
  · obtain none | ⟨known, exported⟩ := h
    · exact absurd none source
    · have before : Entry.Listed (d.source, m.entryOf d.source) := by
        rw [entryOf]
        cases found : m.imports.lookup d.source with
        | none => exact ⟨by simp, by simp⟩
        | some e => exact (stocked _ (Table.mem_of_lookup found)).2
      have added := listed_add before (d := d) (isIdentifier_exportOf exported wish)
        (first.isName (isName_desiredName d wish))
      intro e mem
      obtain rfl | mem := Table.eq_or_mem_of_mem_insert mem
      · exact ⟨known, added⟩
      · exact stocked e mem

theorem messageImport_supplied : Handlers.messageImport.IsSupplied := .inr ⟨by decide, by decide⟩

theorem outlastsCode_stocked : OutlastsCode Stocked := fun _ _ _ _ _ _ _ h => h

theorem isEmpty_insertAll {α : Type} (es : List (String × α)) :
    (Table.insertAll [] es).isEmpty = es.isEmpty := by
  cases es with
  | nil => rfl
  | cons e r =>
    have mem : e.1 ∈ (Table.insertAll [] (e :: r)).map (·.1) :=
      Table.mem_keys_insertAll.2 (.inr List.mem_cons_self)
    cases all : Table.insertAll [] (e :: r) with
    | nil => simp [all] at mem
    | cons => rfl

/-- A module has a style sheet of its own name if it has a class, and else none. -/
def OwnSheet (name : String) (m : Module) : Prop :=
  m.stylesheet = if m.classes.isEmpty then none else some (stylesheetPath name)

theorem addImport_ownSheet {name : String} (d : Dependency) (wish : Option String) :
    Keeps (OwnSheet name) (addImport d wish) := by
  refine fun m h => (addImport_ensures d wish m).mono ?_
  rintro r m' ⟨-, -, ⟨-, -, rfl⟩ | ⟨-, -, rfl⟩ | ⟨-, -, -, rfl⟩⟩
  · exact h
  · exact h
  · exact h

theorem outlastsCode_ownSheet {name : String} : OutlastsCode (OwnSheet name) := fun _ _ _ _ _ _ _ h => h

theorem addStyles_ownSheet (root : Node) (name : String) : OwnSheet name (addStyles root (new name)) := by
  have classes : (addStyles root (new name)).classes.isEmpty = (styledNodes root).isEmpty := by
    rw [(addStyles_tables root (new name)).1, styledNodes_eq, List.isEmpty_map]
    exact (isEmpty_insertAll _).trans List.isEmpty_map
  rw [OwnSheet, classes]
  simp only [addStyles, styledNodes_eq, foldl_addClass]
  split <;> rfl

/-- All classes of the module are those of nodes with styles. -/
def FromStyles (root : Node) (m : Module) : Prop := ∀ e ∈ m.classes, e ∈ classEntries root

theorem addImport_fromStyles {root : Node} (d : Dependency) (wish : Option String) :
    Keeps (FromStyles root) (addImport d wish) := by
  refine fun m h => (addImport_ensures d wish m).mono ?_
  rintro r m' ⟨-, -, ⟨-, -, rfl⟩ | ⟨-, -, rfl⟩ | ⟨-, -, -, rfl⟩⟩
  · exact h
  · exact h
  · exact h

theorem outlastsCode_fromStyles {root : Node} : OutlastsCode (FromStyles root) := fun _ _ _ _ _ _ _ h => h

/-- Whatever parts of a page are written, its module has no classes but those of its styles. -/
theorem writeAll_fromStyles (c : Catalogue) (handlers : Handlers) (p : Page) (parts : List PagePart) :
    Keeps (FromStyles p.root) (PagePart.writeAll c handlers p parts) := by
  have styles : Keeps (FromStyles p.root) (writeStyles p) := by
    refine fun m h => (writeStyles_ensures p m).mono ?_
    rintro _ _ ⟨-, rfl⟩ e mem
    rw [(addStyles_tables p.root m).1] at mem
    exact (Table.mem_insertAll mem).elim (h e) id
  induction parts with
  | nil => exact .pure _
  | cons part r ih =>
    refine .bind ?_ fun _ => ih
    cases part with
    | styles => exact styles
    | markup width =>
      exact outlastsCode_fromStyles.writeMarkup (addImport_fromStyles _) _
        (Node.everywhere_of_forall (fun _ => addImport_fromStyles _) _)

/-- The module of a page whose components have their imports from sources for pages has all of its own from
there, and a style sheet exactly if it has a class. -/
theorem writeAll_sources (c : Catalogue) (handlers : Handlers) {p : Page}
    (supplied : p.root.Everywhere (·.dependency.IsSupplied)) (width : Nat) (name : String) :
    (PagePart.writeAll c handlers p [.styles, .markup width]).Ensures (new name) fun _ m =>
      Stocked m ∧ OwnSheet name m := by
  have stocked : Stocked (addStyles p.root (new name)) := by
    obtain ⟨classes, nodeClasses, sheet, same⟩ := addStyles_eq p.root (new name)
    rw [same]
    exact fun e mem => nomatch mem
  have sheet := addStyles_ownSheet p.root name
  have imports : Keeps Stocked (writeMarkup ⟨c, handlers, width⟩ p) :=
    outlastsCode_stocked.writeMarkup (addImport_stocked messageImport_supplied) _
      (supplied.mono fun _ here => addImport_stocked here)
  have styles : Keeps (OwnSheet name) (writeMarkup ⟨c, handlers, width⟩ p) :=
    outlastsCode_ownSheet.writeMarkup (addImport_ownSheet _) _
      (Node.everywhere_of_forall (fun _ => addImport_ownSheet _) _)
  refine .bind ((writeStyles_ensures p _).mono ?_)
  rintro r m ⟨rfl, rfl⟩
  exact ((imports _ stocked).and (styles _ sheet)).seq (fun _ h => h) fun _ _ h => .pure h

end Component
end Pagesmith
