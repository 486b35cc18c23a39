import Pagesmith.Proofs.Component.Literals
import Pagesmith.Proofs.Component.Sources
import Pagesmith.Proofs.Markup.Angles

/-!
Modules whose markup holds all of their opening angle brackets. Imports, states, effects and functions hold
none: names hold none, the settings of actions and all values are written as literals, and a page function is
called only by an identifier.
-/

namespace Pagesmith

open Build Text Script

/-- Neither the statement nor the function that it calls holds an opening angle bracket. -/
def Handler.IsUnmarked : Handler → Prop
  | .call function => angles function = 0
  | _ => True

namespace Module

theorem Entry.Listed.angles {e : Entry} (h : e.Listed) : angles e.line = 0 := by
  have bracket : isClauseChar '<' = false := rfl
  have front : Text.angles ("import " ++ clauseText e.2.main e.2.named) = 0 := by
    refine angles_free fun mem => ?_
    obtain clause | feed := (isClause_front h.main h.named).chars _ mem
    · cases bracket.symm.trans clause
    · cases feed
  rw [Entry.line, importLine_eq e.1 (given_of_names h.main), angles_append, angles_append, front,
    angles_stringLiteral]
  rfl

theorem angles_header {m : Module} (h : ∀ e : Entry, e ∈ m.imports → e.Listed) : angles m.header = 0 := by
  have lines : ∀ l ∈ m.importBlocks.flatten, angles l = 0 := by
    rw [importBlocks_flatten]
    exact List.forall_mem_map.2 fun e mem => (listed_headerEntries h e mem).angles
  have blocks : ∀ b ∈ m.importBlocks, angles (unlines b) = 0 := by
    intro b mem
    rw [angles_unlines, List.sum_eq_zero_iff_forall_eq_nat]
    exact List.forall_mem_map.2 fun l inside => lines l (List.mem_flatten_of_mem mem inside)
  rw [header, angles_intercalate rfl, List.sum_eq_zero_iff_forall_eq_nat, List.map_map]
  exact List.forall_mem_map.2 blocks

/-- Nothing of the module but its markup holds an opening angle bracket, and its classes, which go into the
markup, are names. -/
structure Unmarked (m : Module) : Prop where
  stocked : Component.Stocked m
  bound : ∀ b ∈ m.bound, IsName b.2
  states : ∀ s ∈ m.states, angles s.2 = 0
  effects : ∀ e ∈ m.effects, angles e = 0
  methods : ∀ f ∈ m.methods, angles f.2 = 0
  classes : ∀ c ∈ m.nodeClasses, IsName c.2

namespace Unmarked

variable {m : Module}

/-- All opening angle brackets of the text are those of the markup. -/
theorem angles_text (h : Unmarked m) (name : Option String) : angles (m.text name) = angles m.markup := by
  have header := angles_header fun e mem => (h.stocked e mem).2
  have code : (([m.states.map (·.2), m.effects, m.methods.map (·.2)].flatten).map angles).sum = 0 := by
    rw [List.sum_eq_zero_iff_forall_eq_nat]
    simp only [List.flatten_cons, List.flatten_nil, List.append_nil, List.forall_mem_map, List.forall_mem_append]
    exact ⟨h.states, h.effects, h.methods⟩
  simp only [Module.text, angles_append, header, angles_functionComponent (isName_toIdentifier _), code]
  simp [angles]

theorem reserve (h : Unmarked m) (names : List String) : Unmarked (m.reserve names) where
  stocked := h.stocked
  bound := h.bound
  states := h.states
  effects := h.effects
  methods := h.methods
  classes := h.classes

theorem addMethod (h : Unmarked m) (name : String) {code : String} (free : angles code = 0) :
    Unmarked (m.addMethod name code) := by
  rw [Module.addMethod]
  split
  · exact h
  · exact { h with methods := List.forall_mem_append.2 ⟨h.methods, List.forall_mem_singleton.2 free⟩ }

theorem addEffect (h : Unmarked m) {code : String} (free : angles code = 0) : Unmarked (m.addEffect code) := by
  rw [Module.addEffect]
  split
  · exact h
  · exact { h with effects := List.forall_mem_append.2 ⟨h.effects, List.forall_mem_singleton.2 free⟩ }

end Unmarked

section Steps

theorem uniqueName_unmarked (base : String) : Delivers Unmarked (uniqueName base) IsName := by
  refine fun m h => (uniqueName_ensures base m).mono ?_
  rintro _ _ ⟨name, rfl, first, rfl⟩
  refine ⟨h.reserve _, ?_⟩
  rintro _ ⟨⟩
  exact first.isName (isName_toIdentifier base)

theorem addImport_unmarked {d : Dependency} (supplied : d.IsSupplied) (wish : Option String) :
    Delivers Unmarked (addImport d wish) IsName := by
  refine fun m h => ((addImport_ensures d wish m).and
    (Component.addImport_stocked supplied wish m h.stocked)).mono ?_
  rintro _ m' ⟨⟨name, rfl, ⟨-, rfl, rfl⟩ | ⟨-, found, rfl⟩ | ⟨-, -, first, rfl⟩⟩, stocked⟩
  all_goals refine ⟨?_, fun name' same => Except.ok.inj same ▸ ?_⟩
  · exact h
  · exact isName_desiredName d wish
  · exact h
  · exact h.bound _ (Table.mem_of_lookup found)
  · have isName := first.isName (isName_desiredName d wish)
    exact { h with
      stocked := stocked
      bound := List.forall_mem_append.2 ⟨h.bound, List.forall_mem_singleton.2 isName⟩ }
  · exact first.isName (isName_desiredName d wish)

theorem addState_unmarked {name : String} (isName : IsName name) (initial : Value) :
    Keeps Unmarked (addState name initial) := by
  refine fun m h => (addState_ensures name initial m).mono ?_
  rintro r m' (⟨-, -, rfl⟩ | ⟨-, -, -, rfl⟩ | ⟨-, -, -, rfl⟩)
  · exact h
  · exact h.reserve _
  · have hook := angles_stateHook isName (angles_literalText initial)
    exact { h with states := List.forall_mem_append.2 ⟨h.states, List.forall_mem_singleton.2 hook⟩ }

end Steps

end Module

namespace Component
open Pagesmith.Module

section Actions

theorem messageLevel_angles (v : Value) : (Handlers.messageLevel v).Yields fun level => angles level = 0 := by
  rw [Handlers.messageLevel.eq_def]
  split
  · exact .pure rfl
  · split
    · next s known =>
      have all : ∀ level ∈ Handlers.messageLevels, angles level = 0 := by decide
      exact .pure (all s (by simpa using known))
    · exact .bind (.any _) fun _ _ => .pure rfl
  · exact .bind (.any _) fun _ _ => .pure rfl

theorem angles_warning (text : String) : angles (Handlers.warning text) = 0 := by
  rw [Handlers.warning, angles_append, angles_append, angles_stringLiteral]
  rfl

theorem textSetting_angles (a : Action) (key : String) :
    (Job.ofExcept (Handlers.textSetting a key)).Yields fun s => angles s = 0 := by
  refine .ofExcept fun s written => ?_
  rw [textSetting_ok written, angles_stringLiteral]

theorem callStatement_angles (target : Value) :
    (Handlers.callStatement target).Yields fun s => angles s = 0 := by
  have warned (shown : String) : angles (Handlers.warning ("Invalid method reference: " ++ shown)) = 0 :=
    angles_warning _
  rw [Handlers.callStatement.eq_def]
  split
  · split
    · next identifier =>
      refine .pure ?_
      rw [angles_append, angles_isIdentifier identifier]
      rfl
    · exact .bind (.any _) fun _ _ => .bind (.any _) fun shown _ => .pure (warned shown)
  · exact .bind (.any _) fun _ _ => .bind (.any _) fun shown _ => .pure (warned shown)

theorem statement_unmarked {h : Handler} (unmarked : h.IsUnmarked) (a : Action) :
    Delivers Unmarked (Handlers.statement h a) fun s => angles s = 0 := by
  cases h with
  | openLink =>
    refine .bind (.ofJob (textSetting_angles a _)) fun url free => .pure ?_
    rw [angles_append, angles_append, free]
    rfl
  | showMessage =>
    refine .bind (addImport_unmarked messageImport_supplied _) fun name isName => ?_
    refine .bind (.ofJob (messageLevel_angles _)) fun level free => ?_
    refine .bind (.ofJob (textSetting_angles a _)) fun text plain => .pure ?_
    simp only [angles_append, isName.angles, free, plain]
    rfl
  | callMethod => exact .ofJob (callStatement_angles _)
  | unresolved =>
    refine .bind (.ofJob (.any _)) fun target _ => .bind (.ofJob (.any _)) fun method _ => .pure ?_
    exact angles_warning _
  | log =>
    refine .bind (.ofJob (literal_angles _)) fun settings free => .pure ?_
    simp only [angles_append, free, angles_stringLiteral]
    rfl
  | call function =>
    refine .bind (.ofJob (literal_angles _)) fun settings free => .pure ?_
    simp only [angles_append, free, show angles function = 0 from unmarked]
    rfl

variable {hs : Handlers} (unmarked : ∀ kind, (hs.get kind).IsUnmarked)
include unmarked

theorem statements_unmarked (actions : List Action) :
    Delivers Unmarked (hs.statements actions) fun ss => (ss.map angles).sum = 0 := by
  have labelled : Delivers Unmarked (hs.labelled actions) fun ss => (ss.map angles).sum = 0 := by
    induction actions with
    | nil => exact .pure rfl
    | cons a r ih =>
      refine .bind (statement_unmarked (unmarked _) a) fun first free => .bind ih fun rest more => .pure ?_
      have label := (isName_toIdentifier a.kind).angles
      rw [List.map_cons, List.sum_cons, more, angles_append, angles_append, angles_append, free, label]
      rfl
  rw [Handlers.statements.eq_def]
  split
  · exact .bind (statement_unmarked (unmarked _) _) fun only free => .pure (by simp [free])
  · exact labelled

theorem eventFunction_unmarked {w : Writer} (same : w.handlers = hs) (key id : String) (actions : List Action) :
    Delivers Unmarked (eventFunction w key id actions) IsName := by
  subst same
  refine .bind (uniqueName_unmarked _) fun name isName => ?_
  refine .bind (statements_unmarked unmarked actions) fun statements free => ?_
  have code : angles (arrowFunction name "" statements) = 0 := by
    rw [angles_arrowFunction, isName.angles, free]
    rfl
  exact .bind (Keeps.modify fun m h => h.addMethod name code).delivers fun _ _ => .pure isName

end Actions

section Page

theorem loadRows_unmarked (id url : String) : Keeps Unmarked (loadRows id url) := by
  have isName : IsName (rowsState id) := isName_toIdentifier _
  refine .bind (addState_unmarked isName _) fun _ => .bind (.modify fun m h => ?_) fun _ => .pure _
  exact h.addEffect (angles_fetchEffect url isName.setterName)

theorem writeStates_unmarked {states : List (String × Value)} (names : ∀ s ∈ states, IsName s.1) :
    Keeps Unmarked (writeStates states) := by
  induction states with
  | nil => exact .pure _
  | cons s r ih =>
    obtain ⟨first, rest⟩ := List.forall_mem_cons.1 names
    exact .bind (addState_unmarked first s.2) fun _ => ih rest

/-- The function has a name, and sets a state that has one. -/
def SetsNamed (f : String × PageMethod) : Prop :=
  IsName f.1 ∧ ∃ state value fromEvent, f.2 = .setter state value fromEvent ∧ IsName state

theorem pageMethod_angles {f : String × PageMethod} (h : SetsNamed f) :
    (pageMethod f.1 f.2).Yields fun code => angles code = 0 := by
  obtain ⟨isName, state, value, fromEvent, setter, isState⟩ := h
  rw [setter]
  cases fromEvent with
  | true =>
    refine .pure ?_
    simp only [angles_arrowFunction, isName.angles, List.map_cons, List.map_nil, List.sum_cons, List.sum_nil,
      angles_append, isState.setterName.angles]
    rfl
  | false =>
    refine .bind (literal_angles value) fun literal free => .pure ?_
    rw [angles_arrowFunction, isName.angles]
    simp only [List.map_cons, List.map_nil, List.sum_cons, List.sum_nil, angles_setterCall isState free]
    rfl

theorem writeMethods_unmarked {methods : List (String × PageMethod)} (named : ∀ f ∈ methods, SetsNamed f) :
    Keeps Unmarked (writeMethods methods) := by
  induction methods with
  | nil => exact .pure _
  | cons f r ih =>
    obtain ⟨first, rest⟩ := List.forall_mem_cons.1 named
    refine Delivers.keeps (V := fun _ => True) ?_
    refine .bind (.ofJob (pageMethod_angles first)) fun code free => ?_
    exact .bind (Keeps.modify fun m h => h.addMethod f.1 free).delivers fun _ _ => (ih rest).delivers

theorem addStyles_unmarked (root : Node) (name : String) : Unmarked (addStyles root (new name)) := by
  have classes : ∀ c ∈ (addStyles root (new name)).nodeClasses, IsName c.2 := by
    rw [(addStyles_tables root (new name)).2]
    intro c mem
    obtain mem | mem := Table.mem_insertAll mem
    · cases mem
    · obtain ⟨n, -, rfl⟩ := List.mem_map.1 mem
      exact isName_toIdentifier _
  obtain ⟨_, _, _, same⟩ := addStyles_eq root (new name)
  rw [same] at classes ⊢
  exact {
    stocked := fun e mem => nomatch mem
    bound := fun b mem => nomatch mem
    states := fun s mem => nomatch mem
    effects := fun e mem => nomatch mem
    methods := fun f mem => nomatch mem
    classes := classes }

end Page

end Component

end Pagesmith
