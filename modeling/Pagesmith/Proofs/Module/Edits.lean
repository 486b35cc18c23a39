import Pagesmith.Proofs.Module.Calls
import Pagesmith.Proofs.Module.Header

/-!
Sequences of edits of a module: the calls that take names, its style sheet and its effects. What a
module holds is what was done to it, so its import lines, read back, say which imports, states,
effects and style sheets there were.
-/

namespace Pagesmith.Module
open Build Script Text

/-- An edit of a module. -/
inductive Edit where
  | call (c : Call)
  | setStylesheet (source : String)
  | addEffect (code : String)

/-- What an edit does; its result is the name it gives out, if it gives one. -/
def Edit.build : Edit → Build (Option String)
  | .call c => c.build
  | .setStylesheet source => do
    modify fun m => { m with stylesheet := some source }
    pure (some "styles")
  | .addEffect code => do
    modify (Module.addEffect code)
    pure none

/-- An import between braces names its export by an identifier, or not at all. -/
def Edit.NamesExports : Edit → Prop
  | .call (.addImport d _) => d.destructured = true → ∀ x ∈ givenText d.exportName, IsName x
  | _ => True

/-- An edit that was made, with its outcome. -/
structure Done where
  edit : Edit
  outcome : Except Fault (Option String)

/-- Edits made one after the other, and the module they leave. -/
def carryOut : List Edit → Module → List Notice → List Done × Module
  | [], m, _ => ([], m)
  | e :: r, m, log =>
    let ((outcome, m'), log') := e.build m log
    let (done, last) := carryOut r m' log'
    (⟨e, outcome⟩ :: done, last)

namespace Done

/-- The binding of an import with a source, and its name. -/
def imported? (e : Done) : Option ((String × String) × String) :=
  match e.edit, e.outcome with
  | .call (.addImport d wish), .ok (some name) =>
    if d.source == "" then none else some (bindingKey d wish, name)
  | _, _ => none

/-- An import of this export of a source, between braces or as a whole. -/
def Asks (e : Done) (braces : Bool) (key : String × String) : Prop :=
  ∃ d wish, e.edit = .call (.addImport d wish) ∧ d.destructured = braces ∧ bindingKey d wish = key

/-- A state was added, or was there already. -/
def addsState (e : Done) : Bool :=
  match e.edit, e.outcome with
  | .call (.addState ..), .ok _ => true
  | _, _ => false

def addsEffect (e : Done) : Bool :=
  match e.edit with
  | .addEffect _ => true
  | _ => false

/-- The style sheet that was set. -/
def stylesheet? (e : Done) : Option String :=
  match e.edit with
  | .setStylesheet source => some source
  | _ => none

/-- An import gives a name. -/
def Answers (e : Done) : Prop :=
  match e.edit with
  | .call (.addImport ..) => ∃ name, e.outcome = .ok (some name)
  | _ => True

end Done

/-- The second module is the first one with all that was done and nothing else. -/
structure Recorded (done : List Done) (m m' : Module) : Prop where
  answers : ∀ e ∈ done, e.Answers
  bound : ∀ b, b ∈ m'.bound ↔ b ∈ m.bound ∨ ∃ e ∈ done, e.imported? = some b
  taken : ∀ braces key, m'.Takes braces key → m.Takes braces key ∨ ∃ e ∈ done, e.Asks braces key
  states : m'.states.isEmpty = (m.states.isEmpty && !done.any Done.addsState)
  effects : m'.effects.isEmpty = (m.effects.isEmpty && !done.any Done.addsEffect)
  stylesheet : m'.stylesheet = (done.filterMap Done.stylesheet?).getLast?.or m.stylesheet

theorem Recorded.nil (m : Module) : Recorded [] m m where
  answers := by simp
  bound := by simp
  taken := fun _ _ => .inl
  states := by simp
  effects := by simp
  stylesheet := by simp

theorem Recorded.append {done more : List Done} {m m' m'' : Module} (h : Recorded done m m')
    (h' : Recorded more m' m'') : Recorded (done ++ more) m m'' where
  answers := by
    intro e mem
    exact (List.mem_append.1 mem).elim (h.answers e) (h'.answers e)
  bound := by
    intro b
    rw [h'.bound, h.bound, or_assoc]
    simp only [List.mem_append, or_and_right, exists_or]
  taken := by
    intro braces key takes
    obtain before | ⟨e, mem, asks⟩ := h'.taken braces key takes
    · refine (h.taken braces key before).imp_right ?_
      rintro ⟨e, mem, asks⟩
      exact ⟨e, List.mem_append_left more mem, asks⟩
    · exact .inr ⟨e, List.mem_append_right done mem, asks⟩
  states := by
    rw [h'.states, h.states, List.any_append, Bool.not_or, Bool.and_assoc]
  effects := by
    rw [h'.effects, h.effects, List.any_append, Bool.not_or, Bool.and_assoc]
  stylesheet := by
    rw [h'.stylesheet, h.stylesheet, List.filterMap_append, List.getLast?_append, Option.or_assoc]

theorem isName_default : IsName defaultExport := by decide

/-- The export of an import that names it by an identifier. -/
theorem isName_exportOf {d : Dependency} {wish : Option String}
    (h : (Edit.call (.addImport d wish)).NamesExports) : IsName (bindingKey d wish).2 := by
  rw [bindingKey, exportOf]
  split
  · next braces =>
    cases given : givenText d.exportName with
    | none => exact isName_desiredName d wish
    | some x => exact h braces x given
  · exact isName_default

theorem recorded_one {e : Done} {m m' : Module} (answers : e.Answers)
    (bound : ∀ b, b ∈ m'.bound ↔ b ∈ m.bound ∨ e.imported? = some b)
    (taken : ∀ braces key, m'.Takes braces key → m.Takes braces key ∨ e.Asks braces key)
    (states : m'.states.isEmpty = (m.states.isEmpty && !e.addsState))
    (effects : m'.effects.isEmpty = (m.effects.isEmpty && !e.addsEffect))
    (stylesheet : m'.stylesheet = e.stylesheet?.or m.stylesheet) : Recorded [e] m m' where
  answers := by simpa using answers
  bound := by simpa using bound
  taken := by simpa using taken
  states := by simpa using states
  effects := by simpa using effects
  stylesheet := by
    rw [stylesheet, List.filterMap_cons]
    cases e.stylesheet? <;> rfl

/-- An edit that brings no import. -/
theorem recorded_other {e : Done} {m m' : Module} (answers : e.Answers) (none : e.imported? = none)
    (imports : m'.imports = m.imports) (bound : m'.bound = m.bound)
    (states : m'.states.isEmpty = (m.states.isEmpty && !e.addsState))
    (effects : m'.effects.isEmpty = (m.effects.isEmpty && !e.addsEffect))
    (stylesheet : m'.stylesheet = e.stylesheet?.or m.stylesheet) : Recorded [e] m m' := by
  refine recorded_one answers (by simp [none, bound]) (fun braces key takes => .inl ?_) states effects
    stylesheet
  rwa [Takes, imports] at takes

/-- A call that brings no import and no effect. -/
theorem recorded_call {c : Call} {r : Except Fault (Option String)} {m m' : Module}
    (answers : Done.Answers ⟨.call c, r⟩) (none : Done.imported? ⟨.call c, r⟩ = none)
    (imports : m'.imports = m.imports) (bound : m'.bound = m.bound) (effects : m'.effects = m.effects)
    (stylesheet : m'.stylesheet = m.stylesheet)
    (states : m'.states.isEmpty = (m.states.isEmpty && !Done.addsState ⟨.call c, r⟩)) :
    Recorded [⟨.call c, r⟩] m m' :=
  recorded_other answers none imports bound states (by simp [effects, Done.addsEffect]) stylesheet

theorem imported_addImport {d : Dependency} (source : d.source ≠ "") (wish : Option String)
    (name : String) : Done.imported? ⟨.call (.addImport d wish), .ok (some name)⟩ =
      some (bindingKey d wish, name) := by
  simp [Done.imported?, source]

/-- Only an import with a source brings a binding. -/
theorem imported_cases {e : Done} {b : (String × String) × String} (h : e.imported? = some b) :
    ∃ d wish, e.edit = .call (.addImport d wish) ∧ d.source ≠ "" ∧ b.1 = bindingKey d wish := by
  rw [Done.imported?] at h
  split at h
  · next d wish name edit _ =>
    split at h
    · contradiction
    · next source => exact ⟨d, wish, edit, by simpa using source, (Option.some.inj h) ▸ rfl⟩
  · contradiction

/-- An import keeps the entries tied to the bindings, and brings its own binding at most. -/
theorem addImport_recorded (d : Dependency) (wish : Option String)
    (exports : (Edit.call (.addImport d wish)).NamesExports) {m : Module} (h : Tied m) :
    (addImport d wish).Ensures m fun r m' => ∃ name, r = .ok name ∧ Tied m' ∧
      Recorded [⟨.call (.addImport d wish), .ok (some name)⟩] m m' := by
  refine (addImport_ensures d wish m).mono ?_
  rintro _ m' ⟨name, rfl, cases⟩
  have answers : Done.Answers ⟨.call (.addImport d wish), .ok (some name)⟩ := ⟨name, rfl⟩
  refine ⟨name, rfl, ?_⟩
  obtain ⟨empty, -, rfl⟩ | ⟨source, found, rfl⟩ | ⟨source, new, first, rfl⟩ := cases
  · exact ⟨h, recorded_call answers (by simp [Done.imported?, empty]) rfl rfl rfl rfl
      (by simp [Done.addsState])⟩
  · refine ⟨h, recorded_one answers (fun b => ⟨.inl, ?_⟩) (fun _ _ => .inl)
      (by simp [Done.addsState]) (by simp [Done.addsEffect]) rfl⟩
    rintro (mem | same)
    · exact mem
    · rw [imported_addImport source] at same
      obtain rfl := Option.some.inj same
      exact Table.mem_of_lookup found
  · have names : NamesOnly ((bindingKey d wish).2, name) :=
      ⟨isName_exportOf exports, first.isName (isName_desiredName d wish)⟩
    refine ⟨h.bind source new names, recorded_one answers (fun b => ?_) (fun braces key takes => ?_)
      (by simp [Module.bind, reserve, Done.addsState])
      (by simp [Module.bind, reserve, Done.addsEffect]) rfl⟩
    · rw [imported_addImport source, Option.some.injEq, eq_comm]
      simp [Module.bind]
    · refine takes.of_bind.imp_right ?_
      rintro ⟨same, key⟩
      exact ⟨d, wish, rfl, same, key⟩

theorem addMethod_rest (name code : String) (m : Module) :
    ∃ reserved methods, m.addMethod name code =
      { m with reserved := reserved, methods := methods } := by
  rw [Module.addMethod]
  split
  · exact ⟨_, _, rfl⟩
  · exact ⟨_, _, rfl⟩

/-- A call that takes names: the entries stay tied to the bindings, and the module is what was done
to it. -/
theorem call_recorded (c : Call) (exports : (Edit.call c).NamesExports) {m : Module} (h : Tied m) :
    c.build.Ensures m fun r m' => Tied m' ∧ Recorded [⟨.call c, r⟩] m m' := by
  cases c with
  | addImport d wish =>
    refine .bind ((addImport_recorded d wish exports h).mono ?_)
    rintro _ m' ⟨name, rfl, recorded⟩
    exact .pure recorded
  | uniqueName base =>
    refine .bind ((uniqueName_ensures base m).mono ?_)
    rintro _ _ ⟨name, rfl, -, rfl⟩
    exact .pure ⟨h.of_eq rfl rfl,
      recorded_call trivial rfl rfl rfl rfl rfl (by simp [reserve, Done.addsState])⟩
  | addState name initial =>
    refine .bind ((addState_ensures name initial m).mono ?_)
    rintro r m' (⟨known, rfl, rfl⟩ | ⟨-, ⟨f, -, rfl⟩, rfl⟩ | ⟨-, -, rfl, rfl⟩)
    · obtain ⟨s, found, -⟩ := List.mem_map.1 known
      have some : m'.states.isEmpty = false := by
        simpa using List.ne_nil_of_mem found
      exact .pure ⟨h, recorded_call trivial rfl rfl rfl rfl rfl (by simp [some])⟩
    · exact ⟨h.of_eq rfl rfl,
        recorded_call trivial rfl rfl rfl rfl rfl (by simp [reserve, Done.addsState])⟩
    · exact .pure ⟨h.of_eq rfl rfl,
        recorded_call trivial rfl rfl rfl rfl rfl (by simp [declare, Done.addsState])⟩
  | addMethod name code =>
    refine .bind (.modify (.pure ?_))
    obtain ⟨reserved, methods, same⟩ := addMethod_rest name code m
    rw [same]
    exact ⟨h.of_eq rfl rfl, recorded_call trivial rfl rfl rfl rfl rfl (by simp [Done.addsState])⟩

/-- One edit: the entries stay tied to the bindings, and the module is what was done to it. -/
theorem Edit.build_ensures (e : Edit) (exports : e.NamesExports) {m : Module} (h : Tied m) :
    e.build.Ensures m fun r m' => Tied m' ∧ Recorded [⟨e, r⟩] m m' := by
  cases e with
  | call c => exact call_recorded c exports h
  | setStylesheet source =>
    refine .bind (.modify (.pure ⟨h.of_eq rfl rfl, ?_⟩))
    exact recorded_other trivial rfl rfl rfl (by simp [Done.addsState]) (by simp [Done.addsEffect]) rfl
  | addEffect code =>
    refine .bind (.modify (.pure ?_))
    rw [Module.addEffect]
    split
    · next known =>
      have some : m.effects.isEmpty = false := by
        simpa using List.ne_nil_of_mem (List.contains_iff_mem.1 known)
      exact ⟨h, recorded_other trivial rfl rfl rfl (by simp [Done.addsState]) (by simp [some]) rfl⟩
    · exact ⟨h.of_eq rfl rfl,
        recorded_other trivial rfl rfl rfl (by simp [Done.addsState]) (by simp [Done.addsEffect]) rfl⟩

theorem carryOut_cons (e : Edit) (r : List Edit) (m : Module) (log : List Notice) :
    carryOut (e :: r) m log =
      (⟨e, (e.build m log).1.1⟩ :: (carryOut r (e.build m log).1.2 (e.build m log).2).1,
        (carryOut r (e.build m log).1.2 (e.build m log).2).2) := rfl

/-- All edits: the module at the end is what was done, from the first edit to the last. -/
theorem carryOut_recorded (edits : List Edit) (exports : ∀ e ∈ edits, e.NamesExports) {m : Module}
    (h : Tied m) (log : List Notice) :
    (carryOut edits m log).1.map (·.edit) = edits ∧ Tied (carryOut edits m log).2 ∧
      Recorded (carryOut edits m log).1 m (carryOut edits m log).2 := by
  induction edits generalizing m log with
  | nil => exact ⟨rfl, h, .nil m⟩
  | cons e r ih =>
    obtain ⟨tied, first⟩ := e.build_ensures (exports e (by simp)) h log
    obtain ⟨edits, last, rest⟩ := ih (fun e' mem => exports e' (List.mem_cons_of_mem e mem)) tied
      (e.build m log).2
    rw [carryOut_cons, List.map_cons, edits]
    exact ⟨rfl, last, first.append rest⟩

/-- The line of the view library: one hook if there is a state, one if there is an effect. -/
def libraryImport (done : List Done) : ImportLine :=
  ⟨"react", some "React", (if done.any Done.addsState then [⟨"useState", none⟩] else []) ++
    (if done.any Done.addsEffect then [⟨"useEffect", none⟩] else [])⟩

/-- The line of a style sheet, if there is one. -/
def stylesheetImports (stylesheet : Option String) : List ImportLine :=
  (givenText stylesheet).toList.map fun s => ⟨s, some "styles", []⟩

/-- The lines say what was imported: one line for each source, in the order of groups and sources,
and between them each binding once, in a way it was asked for, renamed only to another name. -/
structure Faithful (done : List Done) (lines : List ImportLine) : Prop where
  ordered : lines.Pairwise fun k l => Before k.source l.source
  sources : ∀ s, s ∈ lines.map (·.source) ↔
    s ≠ "" ∧ ∃ d wish, .call (.addImport d wish) ∈ done.map (·.edit) ∧ d.source = s
  once : (lines.flatMap ImportLine.bindings).Nodup
  bindings : ∀ b, b ∈ lines.flatMap ImportLine.bindings ↔ ∃ e ∈ done, e.imported? = some b
  whole : ∀ l ∈ lines, l.main.isSome → ∃ e ∈ done, e.Asks false (l.source, defaultExport)
  braces : ∀ l ∈ lines, ∀ s ∈ l.named, ∃ e ∈ done, e.Asks true (l.source, s.exportName)
  renamed : ∀ l ∈ lines, ∀ s ∈ l.named, s.renamed.isSome ↔ s.localName ≠ s.exportName

section New

variable {own : String} {done : List Done} {m : Module} (h : Recorded done (new own) m)
include h

theorem libraryEntry_said : m.libraryEntry.said = libraryImport done := by
  have states : m.states.isEmpty = !done.any Done.addsState := h.states
  have effects : m.effects.isEmpty = !done.any Done.addsEffect := h.effects
  rw [libraryEntry, libraryImport, states, effects]
  cases done.any Done.addsState <;> cases done.any Done.addsEffect <;> rfl

theorem stylesheetEntries_said : m.stylesheetEntries.map Entry.said =
    stylesheetImports (done.filterMap Done.stylesheet?).getLast? := by
  have stylesheet : m.stylesheet = (done.filterMap Done.stylesheet?).getLast? :=
    h.stylesheet.trans Option.or_none
  rw [stylesheetEntries, stylesheetImports, stylesheet, List.map_map]
  rfl

theorem asked {braces : Bool} {key : String × String} (takes : m.Takes braces key) :
    ∃ e ∈ done, e.Asks braces key :=
  (h.taken braces key takes).resolve_left fun before => List.not_mem_nil before.choose_spec.1

/-- There is a line for a source exactly if it was imported from. -/
theorem mem_sources (tied : Tied m) (s : String) :
    s ∈ (m.lineEntries.map Entry.said).map (·.source) ↔
      s ≠ "" ∧ ∃ d wish, .call (.addImport d wish) ∈ done.map (·.edit) ∧ d.source = s := by
  rw [tied.mem_lines]
  constructor
  · rintro ⟨b, mem, rfl⟩
    obtain ⟨e, found, imported⟩ := ((h.bound b).1 mem).resolve_left (by simp [new])
    obtain ⟨d, wish, edit, source, key⟩ := imported_cases imported
    exact ⟨key ▸ source, d, wish, edit ▸ List.mem_map_of_mem found, congrArg Prod.fst key.symm⟩
  · rintro ⟨source, d, wish, mem, rfl⟩
    obtain ⟨⟨-, outcome⟩, found, rfl⟩ := List.mem_map.1 mem
    obtain ⟨name, rfl⟩ := h.answers _ found
    exact ⟨_, (h.bound _).2 (.inr ⟨_, found, imported_addImport source wish name⟩), rfl⟩

theorem faithful_lines (tied : Tied m) : Faithful done (m.lineEntries.map Entry.said) where
  ordered := List.pairwise_map.2 (lineEntries_before tied.sources.1)
  sources := mem_sources h tied
  once := (tied.lines_bindings.nodup_iff).2 (.of_map _ tied.keys)
  bindings := by
    intro b
    rw [tied.lines_bindings.mem_iff, h.bound]
    simp [new]
  whole := by
    intro l mem main
    obtain ⟨e, found, rfl⟩ := entry_of_line mem
    exact asked h ⟨e, found, rfl, main, rfl⟩
  braces := by
    intro l mem s named
    obtain ⟨e, found, rfl⟩ := entry_of_line mem
    obtain ⟨b, listed, rfl⟩ := List.mem_map.1 named
    exact asked h ⟨e, found, rfl, List.mem_map_of_mem ((Table.sorted_perm _).mem_iff.1 listed)⟩
  renamed := by
    intro l mem s found
    obtain ⟨e, -, rfl⟩ := entry_of_line mem
    obtain ⟨b, -, rfl⟩ := List.mem_map.1 found
    rw [specifier_localName, specifier_renamed]
    by_cases same : b.1 = b.2
    · simp [same, specifier]
    · simp [same, specifier, Ne.symm same]

end New

/-- Whatever edits are made on a new module, if imports between braces name their exports by
identifiers: each import is given a name, and the text of the module has exactly these import lines,
the one of the view library, those that say what was imported, and the one of the style sheet that
was set last. -/
theorem header_reads_back (own : String) (name : Option String) (edits : List Edit)
    (exports : ∀ e ∈ edits, e.NamesExports) (log : List Notice) :
    let (done, m) := carryOut edits (new own) log
    done.map (·.edit) = edits ∧ (∀ e ∈ done, e.Answers) ∧
      ∃ lines, Faithful done lines ∧
        readImports (m.text name) = some (libraryImport done ::
          (lines ++ stylesheetImports (done.filterMap Done.stylesheet?).getLast?)) := by
  obtain ⟨made, tied, recorded⟩ := carryOut_recorded edits exports (tied_new own) log
  refine ⟨made, recorded.answers, _, faithful_lines recorded tied, ?_⟩
  rw [readImports_text tied.named, List.map_cons, List.map_append, libraryEntry_said recorded,
    stylesheetEntries_said recorded]

/-- Two imports of one source, one of the project, a state, an effect and a style sheet. -/
def sampleEdits : List Edit := [
  .call (.addImport ⟨"antd", some "Button", none, true, none⟩ none),
  .call (.addImport ⟨"@/components/Page", some "Page", none, false, none⟩ none),
  .call (.addImport ⟨"antd", some "Page", none, true, none⟩ none),
  .call (.addState "open_3" (.bool false)), .addEffect "load();",
  .setStylesheet "./Index.module.scss"]

theorem sampleEdits_read_back :
    (∀ e ∈ sampleEdits, e.NamesExports) ∧
      let (done, m) := carryOut sampleEdits (new "Index") []
      done.map (·.edit) = sampleEdits ∧ (∀ e ∈ done, e.Answers) ∧
        ∃ lines, Faithful done lines ∧
          readImports (m.text none) = some (libraryImport done ::
            (lines ++ stylesheetImports (done.filterMap Done.stylesheet?).getLast?)) := by
  have button : IsName "Button" := by decide
  have page : IsName "Page" := by decide
  have exports : ∀ e ∈ sampleEdits, e.NamesExports := by
    simp [sampleEdits, Edit.NamesExports, givenText, button, page]
  exact ⟨exports, header_reads_back "Index" none sampleEdits exports []⟩

/-- A style sheet that is set to the empty text has no line, whatever was set before. -/
theorem stylesheet_taken_back :
    let (done, m) := carryOut [.setStylesheet "./a.scss", .setStylesheet ""] (new "Index") []
    ((done.filterMap Done.stylesheet?).filter (· != "")).getLast? = some "./a.scss" ∧
      ∀ lines, readImports (m.text none) ≠ some (libraryImport done ::
        (lines ++ stylesheetImports ((done.filterMap Done.stylesheet?).filter (· != "")).getLast?)) := by
  have read : readImports ((carryOut [.setStylesheet "./a.scss", .setStylesheet ""] (new "Index")
      []).2.text none) = some [⟨"react", some "React", []⟩] := by
    decide +kernel
  refine ⟨by decide, fun lines same => ?_⟩
  have rest := (List.cons.inj (Option.some.inj (read.symm.trans same))).2
  exact absurd (List.append_eq_nil_iff.1 rest.symm).2 (by decide)

end Pagesmith.Module
