import Pagesmith.Bundle
import Pagesmith.Proofs.Format.Lines
import Pagesmith.Proofs.Table

/-!
Bundles as they grow and are finished. Adding files and bringing them into form does not fail, and what
comes of it is a function of the files: files whose paths differ are all there in the end, in the order in
which they were added. Finishers go over all files in turns, and still each file is finished on its own.
-/

namespace Pagesmith

namespace Bundle

variable {b : Bundle}

@[simp] theorem files_put (path : String) (f : OutputFile) (b : Bundle) :
    (b.put path f).files = Table.insert path f b.files := rfl

/-- The bundle with files put under their paths. -/
def withFiles (fs : List OutputFile) (b : Bundle) : Bundle := fs.foldl (fun b f => b.put f.path f) b

theorem withFiles_append (fs more : List OutputFile) (b : Bundle) :
    (b.withFiles fs).withFiles more = b.withFiles (fs ++ more) := by
  rw [withFiles, withFiles, withFiles, List.foldl_append]

@[simp] theorem project_withFiles (fs : List OutputFile) (b : Bundle) :
    (b.withFiles fs).project = b.project := by
  induction fs generalizing b with
  | nil => rfl
  | cons f r ih => exact ih _

@[simp] theorem name_withFiles (fs : List OutputFile) (b : Bundle) :
    (b.withFiles fs).name = b.name := by
  induction fs generalizing b with
  | nil => rfl
  | cons f r ih => exact ih _

theorem withFiles_files (fs : List OutputFile) (b : Bundle) :
    (b.withFiles fs).files = Table.insertAll b.files (fs.map fun f => (f.path, f)) := by
  induction fs generalizing b with
  | nil => rfl
  | cons f r ih => exact ih _

/-- Files whose paths differ from each other and from those before are all there. -/
theorem files_withFiles {fs : List OutputFile} (empty : b.files = [])
    (once : (fs.map (·.path)).Nodup) : (b.withFiles fs).files = fs.map fun f => (f.path, f) := by
  rw [withFiles_files, empty]
  refine Table.insertAll_nil ?_
  rwa [List.map_map]

theorem add_ends (f : OutputFile) (b : Bundle) : (b.add f).Ends (b.withFiles [f]) := by
  rw [add]
  split
  · exact .bind (.note _) (.pure _)
  · exact .bind (.pure _) (.pure _)

theorem addAll_ends (fs : List OutputFile) (b : Bundle) : (addAll fs b).Ends (b.withFiles fs) := by
  induction fs generalizing b with
  | nil => exact .pure b
  | cons f r ih =>
    have rest := ih (b.withFiles [f])
    rw [withFiles_append] at rest
    exact .bind (add_ends f b) rest

end Bundle

namespace Finisher

/-- What the finisher makes of a file, if nothing was noticed before. -/
def outcome (fin : Finisher) (f : OutputFile) : Except Fault (Option OutputFile) := (fin.apply f).run.1

/-- The finisher goes by the file alone, not by what was noticed before. -/
def IsSteady (fin : Finisher) : Prop := ∀ f log, (fin.apply f log).1 = fin.outcome f

/-- The file as the finisher leaves it: the new one if there is one, and the file as it was if the finisher
fails or gives none. -/
def after (f : OutputFile) (fin : Finisher) : OutputFile :=
  match fin.outcome f with
  | .ok (some g) => g
  | .ok none | .error _ => f

variable {fin : Finisher}

theorem after_eq {f g : OutputFile} (h : (fin.apply f).Ends (some g)) : after f fin = g := by
  have ok : fin.outcome f = .ok (some g) := h []
  rw [after, ok]

theorem form_steady (o : Format.Options) : (form o).IsSteady := by
  intro f log
  have formed : ((form o).apply f).Ends (some (Format.formed o f)) :=
    .bind (Format.file_ends o f) (.pure _)
  exact (formed log).trans (formed []).symm

theorem after_form (o : Format.Options) (f : OutputFile) : after f (form o) = Format.formed o f :=
  after_eq (.bind (Format.file_ends o f) (.pure _))

end Finisher

namespace Bundle
open Finisher

variable {fin : Finisher} {fins : List Finisher}

/-- The bundle with its files changed, each under its path. -/
def mapFiles (change : OutputFile → OutputFile) (b : Bundle) : Bundle :=
  { b with
    files := Table.mapValues change b.files
    distinct := by
      rw [Table.mapValues, List.map_map]
      exact b.distinct }

@[simp] theorem files_mapFiles (change : OutputFile → OutputFile) (b : Bundle) :
    (b.mapFiles change).files = Table.mapValues change b.files := rfl

@[simp] theorem project_mapFiles (change : OutputFile → OutputFile) (b : Bundle) :
    (b.mapFiles change).project = b.project := rfl

theorem mapFiles_mapFiles (change next : OutputFile → OutputFile) (b : Bundle) :
    (b.mapFiles change).mapFiles next = b.mapFiles (next ∘ change) := by
  simp [mapFiles, Table.mapValues]

theorem mapFiles_id (b : Bundle) : b.mapFiles id = b := by
  simp [mapFiles, Table.mapValues]

/-- A bundle is given by its project, its name and its files. -/
theorem eq_of_files {b b' : Bundle} (project : b.project = b'.project) (name : b.name = b'.name)
    (files : b.files = b'.files) : b = b' := by
  obtain ⟨_, _, _, _⟩ := b
  obtain ⟨_, _, _, _⟩ := b'
  obtain rfl := project
  obtain rfl := name
  obtain rfl := files
  rfl

/-- The bundle with a finished file put back under its path. -/
theorem finishFile_ends (steady : fin.IsSteady) {path : String} {f : OutputFile} {b : Bundle}
    (there : (path, f) ∈ b.files) :
    (finishFile fin path f b).Ends (b.put path (after f fin)) := by
  have settled : (fin.apply f).settle.Ends (fin.outcome f) := fun log => congrArg Except.ok (steady f log)
  have same : b = b.put path f := eq_of_files rfl rfl (Table.insert_same b.distinct there).symm
  refine .bind settled ?_
  rw [after]
  cases fin.outcome f with
  | ok given =>
    cases given with
    | some g => exact .pure _
    | none =>
      dsimp only
      rw [← same]
      exact .pure b
  | error cause =>
    dsimp only
    rw [← same]
    exact .bind (.note _) (.pure b)

/-- Putting the results back one by one changes each file under its path. -/
theorem finishFiles_ends (steady : fin.IsSteady) (b : Bundle) :
    (finishFiles fin b.files b).Ends (b.mapFiles (after · fin)) := by
  -- The files before the one at hand are finished already, and paths differ, so that the result finds its place.
  have run {done todo : List (String × OutputFile)} {b' : Bundle}
      (files : b'.files = Table.mapValues (after · fin) done ++ todo)
      (project : b'.project = b.project) (name : b'.name = b.name) (all : b.files = done ++ todo) :
      (finishFiles fin todo b').Ends (b.mapFiles (after · fin)) := by
    induction todo generalizing done b' with
    | nil =>
      have same : b' = b.mapFiles (after · fin) := by
        refine eq_of_files project name ?_
        rw [files, files_mapFiles, all, List.append_nil, List.append_nil]
      rw [same]
      exact .pure _
    | cons e r ih =>
      have new : e.1 ∉ (Table.mapValues (after · fin) done).map (·.1) := by
        have once := b'.distinct
        rw [files, List.map_append, List.nodup_append] at once
        exact fun mem => once.2.2 _ mem _ List.mem_cons_self rfl
      have there : (e.1, e.2) ∈ b'.files := by simp [files]
      refine .bind (finishFile_ends steady there) (@ih (done ++ [e]) _ ?_ project name ?_)
      · rw [files_put, files, Table.insert_append new, Table.mapValues, Table.mapValues, List.map_append,
          List.append_assoc]
        simp [Table.insert]
      · rw [all, List.append_assoc]
        rfl
  exact @run [] _ b rfl rfl rfl rfl

/-- Finishers take turns over all files, and yet each file comes out as if they had dealt with it alone, one
after the other. -/
theorem finish_ends (steady : ∀ fin ∈ fins, fin.IsSteady) (b : Bundle) :
    (b.finish fins).Ends (b.mapFiles (fins.foldl after)) := by
  induction fins generalizing b with
  | nil =>
    have same : b.mapFiles ([].foldl after) = b := mapFiles_id b
    rw [same]
    exact .pure b
  | cons fin r ih =>
    obtain ⟨first, rest⟩ := List.forall_mem_cons.1 steady
    have turns : b.mapFiles ((fin :: r).foldl after) =
        (b.mapFiles (after · fin)).mapFiles (r.foldl after) := by
      rw [mapFiles_mapFiles]
      rfl
    rw [turns]
    exact .bind (finishFiles_ends first b) (ih rest _)

/-- Bringing a bundle into form leaves every path where it is and forms each file on its own. -/
theorem finish_form_ends (o : Format.Options) (b : Bundle) :
    (b.finish [.form o]).Ends (b.mapFiles (Format.formed o)) := by
  have ends := finish_ends (List.forall_mem_singleton.2 (form_steady o)) b
  simpa only [List.foldl_cons, List.foldl_nil, after_form] using ends

/-- Finishing is done file by file. It does not fail, keeps the paths and their order, and leaves at each path
what the finishers, one after the other, make of the file there, where one that fails or gives no file leaves the
file as it is. So what becomes of a file is the same in every bundle that has it at this path. -/
theorem finish_filewise (steady : ∀ fin ∈ fins, fin.IsSteady) (b : Bundle) : (b.finish fins).Gives fun done =>
    done.project = b.project ∧ done.name = b.name ∧ done.files.map (·.1) = b.files.map (·.1) ∧
    (∀ path, done.files.lookup path = (b.files.lookup path).map (fins.foldl after)) ∧
    ∀ (other : Bundle) (path : String), other.files.lookup path = b.files.lookup path →
      (other.finish fins).Gives fun done' => done'.files.lookup path = done.files.lookup path := by
  refine (finish_ends steady b).gives.mono ?_
  rintro _ rfl
  refine ⟨rfl, rfl, ?_, fun path => ?_, fun other path same => ?_⟩
  · simp [Table.mapValues]
  · rw [files_mapFiles, Table.lookup_mapValues]
  · refine (finish_ends steady other).gives.mono ?_
    rintro _ rfl
    rw [files_mapFiles, files_mapFiles, Table.lookup_mapValues, Table.lookup_mapValues, same]

section Sample

/-- A finisher that fails on one path, one that leaves every file alone, and one that marks the end. -/
def sampleFinishers : List Finisher := [
  ⟨"checker", fun f => if f.path == "a.ts" then Job.fail .circular
    else pure (some { f with content := "// checked\n" ++ f.content })⟩,
  ⟨"idle", fun _ => pure none⟩,
  ⟨"marker", fun f => pure (some { f with content := f.content ++ "// end\n" })⟩]

def sampleFile (path : String) : String × OutputFile := (path, .ofPath path "let x;\n" .ts)

/-- Two files, of which the first cannot be checked. -/
def sampleBundle : Bundle :=
  ⟨⟨[], []⟩, defaultName, [sampleFile "a.ts", sampleFile "b.ts"], by decide⟩

theorem sampleBundle_finished : (∀ fin ∈ sampleFinishers, fin.IsSteady) ∧
    (sampleBundle.finish sampleFinishers).Gives fun done =>
      done.files.map (·.1) = ["a.ts", "b.ts"] ∧
      (done.files.lookup "a.ts").map (·.content) = some "let x;\n// end\n" ∧
      (done.files.lookup "b.ts").map (·.content) = some "// checked\nlet x;\n// end\n" := by
  have steady : ∀ fin ∈ sampleFinishers, fin.IsSteady := by
    simp only [sampleFinishers, List.forall_mem_cons]
    refine ⟨fun f log => ?_, fun f log => rfl, fun f log => rfl, by simp⟩
    simp only [outcome, Job.run]
    split <;> rfl
  refine ⟨steady, (finish_filewise steady sampleBundle).mono ?_⟩
  rintro done ⟨-, -, paths, each, -⟩
  refine ⟨paths, ?_, ?_⟩
  · rw [each]
    rfl
  · rw [each]
    rfl

end Sample

end Bundle

end Pagesmith
