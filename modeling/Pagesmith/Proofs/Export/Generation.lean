import Pagesmith.Proofs.Component.Styled
import Pagesmith.Proofs.Export.Closed

/-!
Generation from end to end: a schema is read, its pages are lifted, and for each of them a module and a
style sheet are written. Reading takes a copy of every container it meets, or puts `null` in its place,
so no value that holds itself is left for the generator. It fails over a slot that carries itself, or over a whole
number that is too long for a text where it has to be written, and over nothing else. Nodes have no classes of
their own when a schema is read, and lifting gives them none, so whatever class an element refers to comes from the
styles of the page.
-/

namespace Pagesmith

namespace Component

/-- The module of a page, under this name: its styles, and then its markup. -/
def pageModule (w : Writer) (name : String) (p : Page) : Job Module := do
  let (outcome, m) ← Build.runOn (Module.new name)
    (PagePart.writeAll w.catalogue w.handlers p [.styles, .markup w.width])
  Job.ofExcept outcome
  pure m

/-- The texts of a page: its module, and the style sheet of the module. -/
def pageTexts (w : Writer) (name : String) (p : Page) : Job (String × String) := do
  let m ← pageModule w name p
  let sheet ← Job.ofExcept m.stylesheetText?
  pure (m.text none, sheet)

/-- The texts of pages, each under the name that `called` gives it. -/
def allTexts (w : Writer) (called : Page → String) : List Page → Job (List (String × String))
  | [] => pure []
  | p :: r => do
    let first ← pageTexts w (called p) p
    let rest ← allTexts w called r
    pure (first :: rest)

/-- The texts of the pages of a schema. -/
def generate (w : Writer) (called : Page → String) (schema : Value) :
    Job (List (String × String)) := do
  let project ← Reading.project w.catalogue schema
  let lifted ← Lifting.project w.catalogue project
  allTexts w called lifted.pages

/-- These are texts that are written for the page. -/
def AreTexts (w : Writer) (name : String) (p : Page) (texts : String × String) : Prop :=
  ∃ said m, (pageModule w name p said).1 = .ok m ∧ texts = (m.text none, m.stylesheetText)

section Whole

variable (w : Writer) {faults : Set Fault}

theorem pageModule_completes (name : String) {p : Page} (whole : p.IsWhole faults) :
    (pageModule w name p).Completes faults (FromStyles p.root) := by
  have written := PagePart.runOn_gives w.catalogue w.handlers whole [.styles, .markup w.width] name
  refine .bind written.completes fun r outcome => ?_
  exact .bind (.ofExcept outcome) fun _ classes => .pure classes

theorem pageTexts_completes (name : String) {p : Page} (whole : p.IsWhole faults) :
    (pageTexts w name p).Completes faults (AreTexts w name p) := by
  refine .bind ((pageModule_completes w name whole).and (.ran _)) fun m ⟨classes, said, ok⟩ => ?_
  refine .bind (.ofExcept (classes.sheet whole)) ?_
  rintro _ rfl
  exact .pure ⟨said, m, ok, rfl⟩

theorem allTexts_complete (called : Page → String) {ps : List Page} (whole : ∀ p ∈ ps, p.IsWhole faults) :
    (allTexts w called ps).Completes faults (List.Forall₂ (fun p => AreTexts w (called p) p) ps) := by
  induction ps with
  | nil => exact .pure .nil
  | cons p r ih =>
    obtain ⟨first, rest⟩ := List.forall_mem_cons.1 whole
    refine .bind (pageTexts_completes w (called p) first) fun t written => ?_
    exact .bind (ih rest) fun ts more => .pure (.cons written more)

/-- What generation for a schema comes to: the texts of its pages, lifted, or a fault that the page nodes bring in. -/
theorem generate_meets (handlers : Handlers) (width : Nat) (called : Page → String) {schema : Value}
    {ns : List EditorNode} (read : Schema.read schema = .ok ns) (log : List Notice) :
    Job.Meets (allFaultsOf (Reading.pageRoots ns)) (fun texts => ∃ project,
        (Reading.project .default schema log).1 = .ok project ∧
        Reading.PagesMirror 0 (Reading.pageRoots ns) project.pages ∧
        List.Forall₂ (fun p => AreTexts ⟨.default, handlers, width⟩ (called p) p)
          (project.pages.map (Lifting.outcome .default)) texts)
      (generate ⟨.default, handlers, width⟩ called schema log).1 := by
  have mirrors := Reading.project_mirrors Catalogue.default_readsAsDefault schema log
  rw [read] at mirrors
  refine Job.meets_bind (mirrors.mono (fun _ mirror => mirror) (faultsOf_subset _)) fun project ok mirror => ?_
  refine Job.Completes.bind (Export.lifting_ends ok).gives.completes ?_ _
  rintro _ rfl
  refine (allTexts_complete _ called (Export.lifted_whole read ok)).mono fun texts are => ?_
  exact ⟨project, ok, mirror, are⟩

end Whole

end Component

namespace Reading

/-- The nodes of the pages of a schema have no classes. -/
theorem project_unclassed {schema : Value} {ns : List EditorNode} (read : Schema.read schema = .ok ns) :
    (Reading.project .default schema).Yields fun p => ∀ q ∈ p.pages, q.root.Everywhere (·.cssClass = none) :=
  project_everywhere (P := fun _ => True) Catalogue.default_readsAsDefault (fun _ _ _ _ h _ => h.plain) read
    fun n _ => n.everywhere_of_forall fun _ => trivial

end Reading

namespace Component

theorem pageModule_dressed (w : Writer) (name : String) {p : Page}
    (unclassed : p.root.Everywhere (·.cssClass = none)) :
    (pageModule w name p).Yields fun m => ∃ root, m.markup = w.text root ∧ Dressed w m.Defines p.root root := by
  have written := (writeAll_dressed w.catalogue w.handlers w.width unclassed name).runOn
  refine .bind written.yields fun r dressed => ?_
  obtain ⟨outcome, m⟩ := r
  cases outcome with
  | error f => exact .bind (P := fun _ => False) (fun _ _ ok => nomatch ok) fun _ none => none.elim
  | ok => exact .bind (.any _) fun _ _ => .pure (dressed rfl)

/-- Style references are closed: every page of a schema that can be read is lifted and, unless the page nodes bring
in a fault, has its module, in whose markup the element of every node with styles refers to a class; and whatever class
an element refers to has a rule in the style sheet of the module, and the module imports the sheet. -/
theorem generate_dressed (handlers : Handlers) (width : Nat) (schema : Value) (log : List Notice) :
    let w : Writer := ⟨.default, handlers, width⟩
    match Schema.read schema with
    | .error f => (Reading.project .default schema log).1 = .error f
    | .ok ns => Job.Meets (faultsOf (Reading.pageRoots ns)) (fun project =>
          Reading.PagesMirror 0 (Reading.pageRoots ns) project.pages ∧
          ∀ p ∈ project.pages, ∀ told, ∃ q, (Lifting.page .default p told).1 = .ok q ∧
            ∀ name said, Job.Meets (allFaultsOf (Reading.pageRoots ns)) (fun m =>
              ∃ root, m.markup = w.text root ∧ Dressed w m.Defines q.root root) (pageModule w name q said).1)
        (Reading.project .default schema log).1 := by
  intro w
  have usual := Catalogue.default_readsAsDefault
  have mirrors := Reading.project_mirrors usual schema log
  cases read : Schema.read schema with
  | error f =>
    rw [read] at mirrors
    exact mirrors
  | ok ns =>
    rw [read] at mirrors
    cases ok : (Reading.project .default schema log).1 with
    | error f =>
      rw [ok] at mirrors
      exact mirrors
    | ok project =>
      rw [ok] at mirrors
      refine ⟨mirrors, fun p mem told => ?_⟩
      obtain ⟨-, -, -, short⟩ :=
        Reading.project_plain (Reading.plain_of_readsAsDefault usual) schema log project ok p mem
      refine ⟨Lifting.outcome .default p, Lifting.page_ends_of_short .default short told, fun name said => ?_⟩
      have whole := Export.lifted_whole read ok _ (List.mem_map_of_mem mem)
      have uniform := Reading.project_uniform usual schema log project ok p mem
      have unclassed : (Lifting.outcome .default p).root.Everywhere (·.cssClass = none) :=
        Lifting.outcome_faces (Q := (·.cssClass = none)) uniform (Reading.project_unclassed read log project ok p mem)
      have written := (pageModule_completes w name whole).and (pageModule_dressed w name unclassed)
      exact (written said).mono (fun m holds => holds.2) (Set.Subset.refl _)

end Component

end Pagesmith
