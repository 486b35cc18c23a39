import Pagesmith.Proofs.Job
import Pagesmith.Reading.Page

/-!
What a project is read from: the pages of a schema are those that are read, one after the other, from
its page nodes, or from its first node if none of them is a page.
-/

namespace Pagesmith.Reading

variable {c : Catalogue} {schema : Value}

/-- The nodes of a schema that become pages: those of the page component, or else the first one. -/
def pageRoots (ns : List EditorNode) : List EditorNode :=
  match ns.filter fun n => n.name == "Page" with
  | [] => ns.take 1
  | roots => roots

/-- The project of these roots. -/
def rootsProject (c : Catalogue) (roots : List EditorNode) : Job Project := do
  return ⟨← pages c [] 0 roots, c.packages⟩

theorem rootsProject_outcome (roots : List EditorNode) (log : List Notice) :
    (rootsProject c roots log).1 =
      (pages c [] 0 roots log).1.map fun ps => ⟨ps, c.packages⟩ := by
  cases found : (pages c [] 0 roots log).1 with
  | error f => exact Job.bind_error found _
  | ok ps => exact Job.bind_ok found _

/-- A project has the pages of its roots, and it fails over the schema or over one of them. -/
theorem project_outcome (c : Catalogue) (schema : Value) (log : List Notice) :
    match Schema.read schema with
    | .error f => (project c schema log).1 = .error f
    | .ok ns => ∃ said, (project c schema log).1 =
        (pages c [] 0 (pageRoots ns) said).1.map fun ps => ⟨ps, c.packages⟩ := by
  cases read : Schema.read schema with
  | error f =>
    simp only [project, read]
    rfl
  | ok ns =>
    simp only [project, read]
    cases ns with
    | nil => exact ⟨log, rfl⟩
    | cons first r =>
      change ∃ said, ((if ((first :: r).filter fun n => n.name == "Page").isEmpty then do
          Job.note (rootlessNotice first.name)
          rootsProject c [first]
        else rootsProject c ((first :: r).filter fun n => n.name == "Page") : Job Project) log).1 = _
      rw [pageRoots]
      cases (first :: r).filter fun n => n.name == "Page" with
      | nil => exact ⟨log ++ [rootlessNotice first.name], rootsProject_outcome [first] _⟩
      | cons root more => exact ⟨log, rootsProject_outcome (root :: more) log⟩

/-- A project that is read has the pages of the roots of its schema, and the packages of the catalogue. -/
theorem project_read {c : Catalogue} {schema : Value} {log : List Notice} {p : Project}
    (ok : (project c schema log).1 = .ok p) : ∃ ns said, Schema.read schema = .ok ns ∧
      (pages c [] 0 (pageRoots ns) said).1 = .ok p.pages ∧ p.manifest = c.packages := by
  have outcome := project_outcome c schema log
  split at outcome
  · rw [outcome] at ok
    cases ok
  · next ns read =>
    obtain ⟨said, outcome⟩ := outcome
    cases found : (pages c [] 0 (pageRoots ns) said).1 with
    | error f =>
      rw [outcome, found] at ok
      cases ok
    | ok ps =>
      rw [outcome, found] at ok
      cases ok
      exact ⟨ns, said, read, found, rfl⟩

/-- What holds of the pages of all roots holds of those of a project. -/
theorem project_yields {Q : List EditorNode → List Page → Prop}
    (h : ∀ roots, (pages c [] 0 roots).Yields (Q roots)) :
    (project c schema).Yields fun p =>
      ∃ ns, Schema.read schema = .ok ns ∧ Q (pageRoots ns) p.pages := by
  intro log p ok
  obtain ⟨ns, said, read, found, -⟩ := project_read ok
  exact ⟨ns, read, h _ said _ found⟩

end Pagesmith.Reading
