import Pagesmith.Proofs.Component.Walk
import Pagesmith.Proofs.Lifting.Names
import Pagesmith.Proofs.Module.Imports
import Pagesmith.Stack.Basic

/-!
The identifiers that a page's module binds. Imports, functions and the states of the page itself are
never bound twice. The state of a table's rows is declared without asking which names are taken, so
only an import can meet it, or its setter, under the same name.
-/

namespace Pagesmith

namespace Module
open Text

/-- The names that a module takes from the view library and its style sheet. -/
def fixedNames (m : Module) : List String :=
  ["React"] ++ (if m.states.isEmpty then [] else ["useState"]) ++
    (if m.effects.isEmpty then [] else ["useEffect"]) ++
    (if (givenText m.stylesheet).isSome then ["styles"] else [])

/-- The states of a module with their setters. -/
def stateNames (m : Module) : List String := m.states.flatMap fun s => [s.1, setterName s.1]

/-- The identifiers that a module binds. -/
def boundNames (m : Module) : List String :=
  m.fixedNames ++ (m.importLocals ++ (m.stateNames ++ m.methods.map (·.1)))

end Module

namespace Component
open Build Pagesmith.Module Text

/-- A name that states have: those of the page start with one letter, those of rows with another. -/
def IsStateName (name : String) : Prop := HasHead 'o' name ∨ HasHead 'd' name

/-- A module of a page with these states: its names are its own, and no import has the name of a
function or of a state of the page. -/
structure Orderly (p : Page) (m : Module) : Prop where
  sound : Sound m
  linked : Linked m
  own : ∀ n ∈ m.ownNames, n ∉ m.bound.map (·.2)
  states : Table.Keyed IsStateName m.states
  methods : Table.Keyed (HasHead 'h') m.methods
  pageStates : ∀ s ∈ m.states, s.1 ∈ p.states.map (·.1) →
    s.1 ∉ m.bound.map (·.2) ∧ setterName s.1 ∉ m.bound.map (·.2)
  functions : ∀ f ∈ m.methods, f.1 ∉ m.bound.map (·.2)

variable {p : Page}

theorem orderly_new (name : String) : Orderly p (new name) where
  sound := sound_new name
  linked := linked_new name
  own := by simp [new]
  states := ⟨.nil, by simp [new]⟩
  methods := ⟨.nil, by simp [new]⟩
  pageStates := by simp [new]
  functions := by simp [new]

theorem Orderly.reserve {m : Module} (h : Orderly p m) (names : List String) :
    Orderly p (m.reserve names) :=
  { h with
    sound := h.sound.reserve names
    linked := h.linked.of_eq rfl rfl }

theorem Orderly.withRest {m : Module} (h : Orderly p m) (effects : List String)
    (classes : List (String × List (String × Value))) (nodeClasses : List (String × String))
    (markup : String) (stylesheet : Option String) :
    Orderly p { m with
      effects := effects, classes := classes, nodeClasses := nodeClasses, markup := markup
      stylesheet := stylesheet } :=
  { h with
    sound := h.sound.withRest effects classes nodeClasses markup stylesheet
    linked := h.linked.of_eq rfl rfl }

theorem Orderly.bind {m : Module} (h : Orderly p m) (d : Dependency) (wish : Option String)
    {name : String} (new : m.bound.lookup (bindingKey d wish) = none) (free : name ∉ m.reserved) :
    Orderly p (m.bind d (bindingKey d wish) name) := by
  have apart {n : String} (taken : n ∈ m.reserved) (other : n ∉ m.bound.map (·.2)) :
      n ∉ (m.bind d (bindingKey d wish) name).bound.map (·.2) := unbound_bind d _ free taken other
  exact {
    sound := h.sound.bind d _ free
    linked := h.linked.bind d wish name new
    own := fun n mem => apart (h.sound.own n mem) (h.own n mem)
    states := h.states
    methods := h.methods
    pageStates := fun s mem known =>
      ⟨apart (h.sound.states s mem).1 (h.pageStates s mem known).1,
        apart (h.sound.states s mem).2 (h.pageStates s mem known).2⟩
    functions := fun f mem => apart (h.sound.methods f mem) (h.functions f mem) }

theorem addImport_orderly (d : Dependency) (wish : Option String) :
    Keeps (Orderly p) (addImport d wish) := by
  refine fun m h => (addImport_ensures d wish m).mono ?_
  rintro r m' ⟨name, -, ⟨-, -, rfl⟩ | ⟨-, -, rfl⟩ | ⟨-, new, first, rfl⟩⟩
  · exact h
  · exact h
  · exact h.bind d wish new first.free

theorem Orderly.declare {m : Module} (h : Orderly p m) {name : String} (initial : Value)
    (isName : IsStateName name) (new : name ∉ m.states.map (·.1))
    (free : name ∈ p.states.map (·.1) →
      name ∉ m.bound.map (·.2) ∧ setterName name ∉ m.bound.map (·.2)) :
    Orderly p (m.declare name initial) where
  sound := h.sound.declare name initial
  linked := h.linked.of_eq rfl rfl
  own := h.own
  states := h.states.append new isName _
  methods := h.methods
  pageStates := by
    intro s mem known
    obtain mem | mem := List.mem_append.1 mem
    · exact h.pageStates s mem known
    · obtain rfl := List.mem_singleton.1 mem
      exact free known
  functions := h.functions

theorem addState_orderly {m : Module} (h : Orderly p m) {name : String} (initial : Value)
    (isName : IsStateName name)
    (free : name ∈ p.states.map (·.1) →
      name ∉ m.bound.map (·.2) ∧ setterName name ∉ m.bound.map (·.2)) :
    (addState name initial).Ensures m fun _ m' => Orderly p m' := by
  refine (addState_ensures name initial m).mono ?_
  rintro r m' (⟨-, -, rfl⟩ | ⟨-, -, -, rfl⟩ | ⟨new, -, -, rfl⟩)
  · exact h
  · exact h.reserve _
  · exact h.declare initial isName new free

theorem Orderly.addMethod {m : Module} (h : Orderly p m) {name : String} (code : String)
    (isName : HasHead 'h' name) (free : name ∉ m.bound.map (·.2)) :
    Orderly p (m.addMethod name code) := by
  have sound := h.sound.addMethod name code
  rw [Module.addMethod] at sound ⊢
  split
  · exact h
  · next new =>
    rw [if_neg new] at sound
    rw [Table.has_iff] at new
    exact {
      sound := sound
      linked := h.linked.of_eq rfl rfl
      own := h.own
      states := h.states
      methods := h.methods.append new isName code
      pageStates := h.pageStates
      functions := by
        intro f mem
        obtain mem | mem := List.mem_append.1 mem
        · exact h.functions f mem
        · obtain rfl := List.mem_singleton.1 mem
          exact free }

theorem hasHead_rowsState (id : String) : HasHead 'd' (rowsState id) := by
  have letter : HasHead 'd' "dataSource_" := rfl
  exact (letter.append id).toIdentifier rfl

theorem loadRows_orderly (named : Lifting.IsNamed p) (id url : String) :
    Keeps (Orderly p) (loadRows id url) := by
  intro m h
  have letter := hasHead_rowsState id
  have other : rowsState id ∉ p.states.map (·.1) :=
    fun mem => (named.1.2 _ mem).ne letter (by decide) rfl
  refine .bind ((addState_orderly h (.list []) (.inr letter) (absurd · other)).mono ?_)
  intro r m' h'
  cases r with
  | error f => exact h'
  | ok a =>
    refine .bind (.modify (.pure ?_))
    rw [addEffect]
    split
    · exact h'
    · exact h'.withRest _ _ _ _ _

theorem hasHead_firstFree {c : Char} {taken : List String} {base name : String}
    (h : IsFirstFree taken base name) (head : HasHead c base) : HasHead c name := by
  obtain ⟨k, rfl, -⟩ := h
  cases k with
  | zero => exact head
  | succ k => exact (head.append "_").append _

theorem eventFunction_orderly (w : Writer) (key id : String) (actions : List Action) :
    Keeps (Orderly p) (eventFunction w key id actions) := by
  intro m h
  refine .bind ((uniqueName_ensures _ m).mono ?_)
  rintro _ _ ⟨name, rfl, first, rfl⟩
  have isName : HasHead 'h' name := by
    refine hasHead_firstFree first ?_
    exact (hasHead_handlerName key id).toIdentifier rfl
  have unbound : name ∉ m.bound.map (·.2) := by
    intro mem
    obtain ⟨b, found, rfl⟩ := List.mem_map.1 mem
    exact first.free (h.sound.bound b found)
  -- the name stays taken and unbound while the statements are written
  have start : Orderly p (m.reserve [name]) ∧ name ∈ (m.reserve [name]).reserved ∧
      name ∉ (m.reserve [name]).bound.map (·.2) :=
    ⟨h.reserve [name], mem_reserve.2 (.inr (by simp)), unbound⟩
  have imports (d : Dependency) (wish : Option String) :
      Keeps (fun m => Orderly p m ∧ name ∈ m.reserved ∧ name ∉ m.bound.map (·.2))
        (addImport d wish) := by
    rintro m ⟨h, taken, unbound⟩
    refine (addImport_ensures d wish m).mono ?_
    rintro r m' ⟨n, -, ⟨-, -, rfl⟩ | ⟨-, -, rfl⟩ | ⟨-, new, first, rfl⟩⟩
    · exact ⟨h, taken, unbound⟩
    · exact ⟨h, taken, unbound⟩
    · exact ⟨h.bind d wish new first.free, mem_reserve.2 (.inl taken),
        unbound_bind d _ first.free taken unbound⟩
  refine .bind ((statements_keeps (imports _) w.handlers actions _ start).mono ?_)
  rintro r m' ⟨h', -, unbound'⟩
  cases r with
  | error f => exact h'
  | ok statements => exact .bind (.modify (.pure (h'.addMethod _ isName unbound')))

theorem element_orderly (named : Lifting.IsNamed p) (w : Writer) (n : Node) :
    Keeps (Orderly p) (element w n) :=
  element_keeps addImport_orderly (eventFunction_orderly w) (loadRows_orderly named) n

/-- Nothing is imported yet. -/
def Unbound (p : Page) (m : Module) : Prop := Orderly p m ∧ m.bound = []

theorem writeStates_unbound {states : List (String × Value)}
    (names : ∀ s ∈ states, HasHead 'o' s.1) : Keeps (Unbound p) (writeStates states) := by
  induction states with
  | nil => exact .pure _
  | cons s r ih =>
    refine .bind ?_ fun _ => ih fun t mem => names t (by simp [mem])
    rintro m ⟨h, none⟩
    have free : s.1 ∉ m.bound.map (·.2) ∧ setterName s.1 ∉ m.bound.map (·.2) := by simp [none]
    have state := addState_orderly h s.2 (.inl (names s (by simp))) fun _ => free
    refine (state.and (addState_ensures s.1 s.2 m)).mono ?_
    rintro _ m' ⟨h', ⟨-, -, rfl⟩ | ⟨-, -, -, rfl⟩ | ⟨-, -, -, rfl⟩⟩
    · exact ⟨h', none⟩
    · exact ⟨h', none⟩
    · exact ⟨h', none⟩

theorem writeMethods_unbound {methods : List (String × PageMethod)}
    (names : ∀ f ∈ methods, HasHead 'h' f.1) : Keeps (Unbound p) (writeMethods methods) := by
  induction methods with
  | nil => exact .pure _
  | cons f r ih =>
    refine .bind (.ofJob _) fun code => .bind (.modify ?_) fun _ => ih fun g mem => names g (by simp [mem])
    rintro m ⟨h, none⟩
    refine ⟨h.addMethod code (names f (by simp)) (by simp [none]), ?_⟩
    rw [Module.addMethod]
    split
    · exact none
    · exact none

/-- Style classes change nothing that names depend on. -/
theorem addStyles_eq (root : Node) (m : Module) : ∃ classes nodeClasses stylesheet,
    addStyles root m = { m with
      classes := classes, nodeClasses := nodeClasses, stylesheet := stylesheet } := by
  have fold (styled : List (String × List (String × Value))) : ∃ classes nodeClasses,
      styled.foldl (fun m s => m.addClass (Text.className s.1) s.2 (some s.1)) m =
        { m with classes := classes, nodeClasses := nodeClasses } := by
    induction styled generalizing m with
    | nil => exact ⟨_, _, rfl⟩
    | cons s r ih =>
      obtain ⟨classes, nodeClasses, same⟩ := ih (m.addClass (Text.className s.1) s.2 (some s.1))
      exact ⟨classes, nodeClasses, same⟩
  obtain ⟨classes, nodeClasses, same⟩ := fold (styledNodes root)
  simp only [addStyles, same]
  split
  · exact ⟨_, _, _, rfl⟩
  · exact ⟨_, _, _, rfl⟩

theorem writeStyles_ensures (p : Page) (m : Module) :
    (writeStyles p).Ensures m fun r m' => r = .ok () ∧ m' = addStyles p.root m := by
  refine .bind (.modify ?_)
  dsimp only
  split
  · exact .ofJob fun _ => ⟨rfl, rfl⟩
  · exact .pure ⟨rfl, rfl⟩

theorem writeStyles_unbound (q : Page) : Keeps (Unbound p) (writeStyles q) := by
  refine .bind (.modify ?_) fun _ => ?_
  · rintro m ⟨h, none⟩
    obtain ⟨classes, nodeClasses, stylesheet, same⟩ := addStyles_eq q.root m
    rw [same]
    exact ⟨h.withRest _ _ _ _ _, none⟩
  · dsimp only
    split
    · exact .note _
    · exact .pure _

theorem writeMarkup_orderly (named : Lifting.IsNamed p) (w : Writer) {m : Module}
    (h : Unbound p m) : (writeMarkup w p).Ensures m fun _ m' => Orderly p m' := by
  have states : Keeps (Unbound p) (writeStates p.states) :=
    writeStates_unbound fun s mem => named.1.2 _ (List.mem_map_of_mem mem)
  have methods : Keeps (Unbound p) (writeMethods p.methods) :=
    writeMethods_unbound fun f mem => named.2.2 _ (List.mem_map_of_mem mem)
  refine (states m h).seq (fun _ h' => h'.1) fun _ m h => ?_
  refine (methods m h).seq (fun _ h' => h'.1) fun _ m h => ?_
  refine (element_orderly named w p.root m h.1).seq (fun _ h' => h') fun root m h => .modify ?_
  exact h.withRest _ _ _ _ _

/-- Whatever comes of writing a page, the module is left in order. -/
theorem writeAll_orderly (named : Lifting.IsNamed p) (c : Catalogue) (hs : Handlers) (width : Nat)
    (name : String) :
    (PagePart.writeAll c hs p [.styles, .markup width]).Ensures (new name)
      fun _ m' => Orderly p m' := by
  refine (writeStyles_unbound p (new name) ⟨orderly_new name, rfl⟩).seq (fun _ h' => h'.1)
    fun _ m h => ?_
  exact (writeMarkup_orderly named ⟨c, hs, width⟩ h).seq (fun _ h' => h') fun _ m h => .pure h

theorem mem_fixedNames {m : Module} {n : String} (mem : n ∈ m.fixedNames) :
    n = "React" ∨ n = "useState" ∨ n = "useEffect" ∨ n = "styles" := by
  simp only [fixedNames, List.mem_append] at mem
  obtain ((mem | mem) | mem) | mem := mem
  · exact .inl (List.mem_singleton.1 mem)
  all_goals
    split at mem
    all_goals simp at mem
    all_goals simp [mem]

theorem fixedNames_nodup (m : Module) : m.fixedNames.Nodup := by
  rw [fixedNames]
  split <;> split <;> split <;> decide

theorem hasHead_setterName (s : String) : HasHead 's' (setterName s) := by
  simp [HasHead, toList_setterName]

theorem IsStateName.ne_setter {s t : String} (h : IsStateName s) : s ≠ setterName t := by
  obtain h | h := h
  · exact h.ne (hasHead_setterName t) (by decide)
  · exact h.ne (hasHead_setterName t) (by decide)

theorem IsStateName.setter_inj {s t : String} (hs : IsStateName s) (ht : IsStateName t)
    (same : setterName s = setterName t) : s = t := by
  obtain hs | hs := hs <;> obtain ht | ht := ht
  all_goals exact setterName_inj hs ht (by decide) (by decide) (by decide) same

theorem mem_stateNames {m : Module} {n : String} (mem : n ∈ m.stateNames) :
    ∃ s ∈ m.states, n = s.1 ∨ n = setterName s.1 := by
  obtain ⟨s, found, mem⟩ := List.mem_flatMap.1 mem
  exact ⟨s, found, by simpa using mem⟩

theorem stateNames_nodup {m : Module} (h : Table.Keyed IsStateName m.states) :
    m.stateNames.Nodup := by
  obtain ⟨distinct, names⟩ := h
  have isName (s : String × String) (mem : s ∈ m.states) : IsStateName s.1 :=
    names _ (List.mem_map_of_mem mem)
  rw [stateNames, List.nodup_flatMap]
  refine ⟨fun s mem => by simpa using (isName s mem).ne_setter, ?_⟩
  have apart : m.states.Pairwise fun s t => s.1 ≠ t.1 := List.pairwise_map.1 distinct
  refine apart.imp_of_mem ?_
  intro s t mem mem' other n inS inT
  simp only [List.mem_cons, List.not_mem_nil, or_false] at inS inT
  obtain rfl | rfl := inS <;> obtain same | same := inT
  · exact other same
  · exact (isName s mem).ne_setter same
  · exact (isName t mem').ne_setter same.symm
  · exact other ((isName s mem).setter_inj (isName t mem') same)

theorem fixedNames_apart {m : Module} (states : Table.Keyed IsStateName m.states) :
    ∀ n ∈ m.fixedNames, n ∉ m.stateNames := by
  intro n fixed mem
  obtain ⟨s, found, same⟩ := mem_stateNames mem
  have isName := states.2 _ (List.mem_map_of_mem found)
  have setter := toList_setterName s.1
  obtain rfl | rfl := same
  · obtain h | h := isName
    all_goals
      obtain same | same | same | same := mem_fixedNames fixed
      all_goals
        rw [same] at h
        exact absurd h (by decide)
  · obtain same | same | same | same := mem_fixedNames fixed
    all_goals
      rw [same] at setter
      simp at setter

/-- Everything that a page's module binds is bound once, exactly if no import has the name of a
state that is not the page's own, or of its setter. -/
theorem Orderly.boundNames_nodup {m : Module} (h : Orderly p m) :
    m.boundNames.Nodup ↔ ∀ s ∈ m.states, s.1 ∉ p.states.map (·.1) →
      s.1 ∉ m.importLocals ∧ setterName s.1 ∉ m.importLocals := by
  have import_mem {n : String} : n ∈ m.importLocals ↔ n ∈ m.bound.map (·.2) := h.linked.locals.mem_iff
  have method {n : String} (mem : n ∈ m.methods.map (·.1)) : HasHead 'h' n := h.methods.2 n mem
  constructor
  · intro nodup s found _
    have apart := (List.nodup_append.1 (List.nodup_append.1 nodup).2.1).2.2
    have name : s.1 ∈ m.stateNames := List.mem_flatMap.2 ⟨s, found, by simp⟩
    have setter : setterName s.1 ∈ m.stateNames := List.mem_flatMap.2 ⟨s, found, by simp⟩
    exact ⟨fun mem => apart _ mem _ (List.mem_append_left _ name) rfl,
      fun mem => apart _ mem _ (List.mem_append_left _ setter) rfl⟩
  -- The four groups of names, from the fixed ones to the functions, are apart within and from each
  -- other. Only imports and the states of others can meet, and that is what `free` excludes.
  · intro free
    refine List.nodup_append.2 ⟨fixedNames_nodup m, List.nodup_append.2 ⟨?_, List.nodup_append.2
      ⟨stateNames_nodup h.states, h.methods.1, ?_⟩, ?_⟩, ?_⟩
    · exact h.linked.locals.nodup_iff.2 h.sound.apart
    · rintro n mem n' mem' rfl
      obtain ⟨s, found, rfl | rfl⟩ := mem_stateNames mem
      · obtain letter | letter := h.states.2 _ (List.mem_map_of_mem found)
        all_goals exact letter.ne (method mem') (by decide) rfl
      · exact (hasHead_setterName s.1).ne (method mem') (by decide) rfl
    · rintro n mem n' mem' rfl
      rw [import_mem] at mem
      obtain mem' | mem' := List.mem_append.1 mem'
      · obtain ⟨s, found, same⟩ := mem_stateNames mem'
        by_cases known : s.1 ∈ p.states.map (·.1)
        · obtain ⟨name, setter⟩ := h.pageStates s found known
          obtain rfl | rfl := same
          · exact name mem
          · exact setter mem
        · obtain ⟨name, setter⟩ := free s found known
          rw [import_mem] at name setter
          obtain rfl | rfl := same
          · exact name mem
          · exact setter mem
      · obtain ⟨f, found, rfl⟩ := List.mem_map.1 mem'
        exact h.functions f found mem
    · rintro n mem n' mem' rfl
      obtain mem' | mem' := List.mem_append.1 mem'
      · refine h.own n ?_ (import_mem.1 mem')
        obtain rfl | rfl | rfl | rfl := mem_fixedNames mem <;> simp [ownNames]
      · obtain mem' | mem' := List.mem_append.1 mem'
        · exact fixedNames_apart h.states n mem mem'
        · obtain rfl | rfl | rfl | rfl := mem_fixedNames mem
          all_goals exact absurd (method mem') (by decide)

/-- A schema as the project that is written: read, and its component methods lifted. -/
def prepared (c : Catalogue) (schema : Value) : Job Project := do
  let project ← Reading.project c schema
  Lifting.project c project

/-- The module of a page once its styles and its markup are written, or as far as they are. -/
def writtenModule (p : Page) (width : Nat) (log : List Notice) : Module :=
  (PagePart.writeAll .default Handlers.default p [.styles, .markup width]
    (new (Route.component p.fileName)) log).1.2

/-- For every page of every schema, whatever it contains: the module binds each identifier once,
exactly if no import has the name of the state that some table's rows are loaded into, or of its
setter. -/
theorem boundNames_nodup_iff (schema : Value) (log : List Notice) (project : Project)
    (read : (prepared .default schema log).1 = .ok project) (p : Page) (page : p ∈ project.pages)
    (width : Nat) (said : List Notice) :
    (writtenModule p width said).boundNames.Nodup ↔
      ∀ s ∈ (writtenModule p width said).states, s.1 ∉ p.states.map (·.1) →
        s.1 ∉ (writtenModule p width said).importLocals ∧
          setterName s.1 ∉ (writtenModule p width said).importLocals := by
  have all : (prepared .default schema).Yields fun found => ∀ q ∈ found.pages, Lifting.IsNamed q :=
    .bind (Reading.project_named .default schema) fun _ named =>
      Lifting.project_named Lifting.drives_default named
  have named := all log project read p page
  have order := writeAll_orderly named .default Handlers.default width (Route.component p.fileName)
  exact (order said).boundNames_nodup

/-- A table that loads its rows, behind an icon with the name of the state for them. -/
def clashing : Value :=
  .list [.dict [("id", .int 1), ("name", .str "Page"), ("children", .list [
    .dict [("id", .str "3"), ("name", .str "Icon"), ("props", .dict [("icon", .str "dataSource_2")])],
    .dict [("id", .str "2"), ("name", .str "Table"), ("props", .dict [("url", .str "/rows")])]])]]

theorem clashing_bound_twice : ((prepared .default clashing []).1.toOption.any fun project =>
    project.pages.any fun p => !decide (writtenModule p 80 []).boundNames.Nodup) = true := by
  decide +kernel

theorem clashing_meets_import : ∃ project p, (prepared .default clashing []).1 = .ok project ∧
    p ∈ project.pages ∧ ¬ (writtenModule p 80 []).boundNames.Nodup ∧
    ∃ s ∈ (writtenModule p 80 []).states, s.1 ∉ p.states.map (·.1) ∧
      (s.1 ∈ (writtenModule p 80 []).importLocals ∨
        setterName s.1 ∈ (writtenModule p 80 []).importLocals) := by
  have found := clashing_bound_twice
  cases read : (prepared .default clashing []).1 with
  | error f =>
    rw [read] at found
    contradiction
  | ok project =>
    rw [read] at found
    obtain ⟨p, page, twice⟩ := List.any_eq_true.1 found
    have twice : ¬ (writtenModule p 80 []).boundNames.Nodup := by simpa using twice
    refine ⟨project, p, rfl, page, twice, ?_⟩
    rw [boundNames_nodup_iff clashing [] project read p page 80 []] at twice
    push Not at twice
    obtain ⟨s, state, own, meets⟩ := twice
    exact ⟨s, state, own, or_iff_not_imp_left.2 meets⟩

end Component

end Pagesmith
