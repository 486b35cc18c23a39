import Pagesmith.Module.Text
import Pagesmith.Proofs.Job
import Pagesmith.Proofs.Module.Names
import Pagesmith.Proofs.Script.Statement

/-!
What a module shows while it is written. A step gives a piece of text if the piece comes to stand in
its value or in a state, an effect or a function of the module, and stays there. Steps that give a
piece compose, so the walk over a page says for each of them only what it adds.
-/

namespace Pagesmith

namespace Module
open Text

/-- The piece stands in a state, an effect or a function of the module. -/
def Shows (t : List Char) (m : Module) : Prop :=
  (∃ s ∈ m.states, Holds s.2 t) ∨ (∃ e ∈ m.effects, Holds e t) ∨ ∃ f ∈ m.methods, Holds f.2 t

/-- All names of the module are taken, and its nodes have these style classes. -/
structure Ready (classes : List (String × String)) (m : Module) : Prop where
  sound : Sound m
  classes : m.nodeClasses = classes

section Ready

variable {classes : List (String × String)} {t : List Char} {m : Module}

theorem Shows.append_states (h : m.Shows t) (states : List (String × String)) :
    Shows t { m with states := m.states ++ states } := by
  obtain ⟨s, mem, found⟩ | rest := h
  · exact .inl ⟨s, List.mem_append_left _ mem, found⟩
  · exact .inr rest

/-- An effect is written, unless it has been before. -/
theorem Ready.addEffect (ready : Ready classes m) (code : String) :
    Ready classes (m.addEffect code) ∧
      (Holds code t ∨ m.Shows t → (m.addEffect code).Shows t) := by
  rw [Module.addEffect]
  split
  · next known =>
    refine ⟨ready, Or.rec (fun held => ?_) id⟩
    exact .inr (.inl ⟨code, by simpa using known, held⟩)
  · refine ⟨⟨ready.sound.withRest _ _ _ _ _, ready.classes⟩, fun shown => ?_⟩
    obtain held | states | ⟨e, mem, held⟩ | methods := shown
    · exact .inr (.inl ⟨code, by simp, held⟩)
    · exact .inl states
    · exact .inr (.inl ⟨e, List.mem_append_left _ mem, held⟩)
    · exact .inr (.inr methods)

/-- A function is written, unless there is one of its name. -/
theorem Ready.addMethod (ready : Ready classes m) (name code : String) :
    Ready classes (m.addMethod name code) ∧
      ((Holds code t ∧ name ∉ m.methods.map (·.1)) ∨ m.Shows t →
        (m.addMethod name code).Shows t) := by
  have sound := ready.sound.addMethod name code
  rw [Module.addMethod] at sound ⊢
  split
  · next known =>
    rw [Table.has_iff] at known
    exact ⟨ready, Or.rec (fun new => absurd known new.2) id⟩
  · next new =>
    rw [if_neg new] at sound
    refine ⟨⟨sound, ready.classes⟩, fun shown => ?_⟩
    obtain ⟨held, -⟩ | states | effects | ⟨f, mem, held⟩ := shown
    · exact .inr (.inr ⟨(name, code), by simp, held⟩)
    · exact .inl states
    · exact .inr (.inl effects)
    · exact .inr (.inr ⟨f, List.mem_append_left _ mem, held⟩)

end Ready

/-- The text of the component in a module. -/
def componentText (m : Module) : String :=
  Script.functionComponent (toIdentifier m.name)
    [m.states.map (·.2), m.effects, m.methods.map (·.2)] m.markup

theorem text_eq (m : Module) : m.text none = m.header ++ "\n\n" ++ m.componentText := rfl

theorem holds_componentText {t : List Char} (piece : Piece t) {m : Module}
    (h : m.Shows t ∨ Holds m.markup t) : Holds m.componentText t := by
  obtain (⟨s, mem, held⟩ | ⟨s, mem, held⟩ | ⟨f, mem, held⟩) | held := h
  · exact Script.holds_section piece held (List.mem_map_of_mem mem) (by simp) _ _
  · exact Script.holds_section piece held mem (by simp) _ _
  · exact Script.holds_section piece held (List.mem_map_of_mem mem) (by simp) _ _
  · exact Script.holds_markup piece held _ _

theorem feeds_componentText (m : Module) : Feeds m.componentText :=
  Script.feeds_functionComponent (isName_toIdentifier m.name) _ _

/-- A piece on one line stands in the import lines or in the component. -/
theorem holds_text {m : Module} {t : List Char} (line : '\n' ∉ t) :
    Holds (m.text none) t ↔ Holds m.header t ∨ Holds m.componentText t := by
  have blank : (m.text none).toList =
      m.header.toList ++ '\n' :: ([] ++ '\n' :: m.componentText.toList) := by
    rw [text_eq]
    simp
  rw [Holds, blank, infix_around line, infix_around line]
  constructor
  · rintro (held | held | held)
    · exact .inl held
    · exact .inl (held.trans List.nil_infix)
    · exact .inr held
  · exact Or.imp_right .inr

end Module

namespace Build
open Pagesmith.Module Text

variable {α β : Type}

/-- The step gives the piece: if `E` holds, or the module shows the piece already, then the value
does in the sense of `V`, or the module does. It fails only over what literals fail over. -/
def Gives (classes : List (String × String)) (t : List Char) (b : Build α) (E : Prop)
    (V : α → Prop) : Prop :=
  ∀ m, Ready classes m → b.Ensures m fun r m' => match r with
    | .ok a => Ready classes m' ∧ (E ∨ m.Shows t → V a ∨ m'.Shows t)
    | .error f => f ∈ Script.literalFaults

section Gives

variable {classes : List (String × String)} {t : List Char} {b : Build α} {next : α → Build β}
  {E E' G : Prop} {V V' F : α → Prop} {W : β → Prop}

theorem Gives.mono (h : Gives classes t b E V) (given : E' → E) (value : ∀ a, V a → V' a) :
    Gives classes t b E' V' := by
  refine fun m ready => (h m ready).mono ?_
  rintro r m' result
  cases r with
  | ok a => exact ⟨result.1, fun shown => (result.2 (shown.imp_left given)).imp_left (value a)⟩
  | error f => exact result

theorem Gives.pure {a : α} (h : E → V a) : Gives classes t (Pure.pure a) E V :=
  fun _ ready => .pure ⟨ready, Or.imp_left h⟩

theorem Gives.bind (first : Gives classes t b E V) (rest : ∀ a, Gives classes t (next a) (F a) W)
    (pass : ∀ a, V a → F a) (given : ∀ a, G → E ∨ F a) : Gives classes t (b >>= next) G W := by
  refine fun m ready => .bind ((first m ready).mono ?_)
  rintro r m' result
  cases r with
  | error f => exact result
  | ok a =>
    obtain ⟨ready, shows⟩ := result
    refine (rest a m' ready).mono ?_
    rintro r m'' result
    cases r with
    | error f => exact result
    | ok a' =>
      refine ⟨result.1, fun shown => result.2 ?_⟩
      obtain given' | shown := shown
      · obtain here | later := given a given'
        · exact (shows (.inl here)).imp_left (pass a)
        · exact .inl later
      · exact (shows (.inr shown)).imp_left (pass a)

/-- Two steps, the first of which gives nothing. -/
theorem Gives.after (first : Gives classes t b False fun _ => False)
    (rest : ∀ a, Gives classes t (next a) G W) : Gives classes t (b >>= next) G W :=
  first.bind rest (fun _ => False.elim) fun _ => .inr

/-- A step whose value is made into another one. -/
theorem Gives.map {f : α → β} (first : Gives classes t b E V) (value : ∀ a, V a → W (f a)) :
    Gives classes t (b >>= fun a => Pure.pure (f a)) E W :=
  first.bind (fun a => .pure (value a)) (fun _ => id) fun _ => .inl

/-- Two steps, where what the first gives is left to the second with what it is to give itself. -/
theorem Gives.chain (first : Gives classes t b E V)
    (rest : ∀ a, Gives classes t (next a) (V a ∨ G) W) : Gives classes t (b >>= next) (E ∨ G) W :=
  first.bind rest (fun _ => .inl) fun _ => Or.imp_right .inr

/-- Two steps whose values are put together. -/
theorem Gives.both {γ : Type} {c : Build β} {f : α → β → γ} {U : γ → Prop}
    (first : Gives classes t b E V) (rest : Gives classes t c E' W)
    (value : ∀ a a', V a ∨ W a' → U (f a a')) :
    Gives classes t (do let a ← b; let a' ← c; Pure.pure (f a a')) (E ∨ E') U := by
  refine first.chain fun a => ?_
  exact (rest.chain fun a' => .pure (value a a' ∘ Or.symm)).mono Or.symm fun _ => id

/-- Two steps, the first of which has a known value. -/
theorem Gives.chain_value {a : α} (first : Gives classes t b E fun _ => False)
    (value : ∀ m, b.Ensures m fun r _ => r = .ok a) (rest : Gives classes t (next a) G W) :
    Gives classes t (b >>= next) (E ∨ G) W := by
  refine fun m ready => .bind (((first m ready).and (value m)).mono ?_)
  rintro r m' ⟨result, rfl⟩
  obtain ⟨ready, shows⟩ := result
  refine (rest m' ready).mono ?_
  rintro r m'' result
  cases r with
  | error f => exact result
  | ok a' =>
    refine ⟨result.1, fun shown => result.2 ?_⟩
    obtain (here | later) | shown := shown
    · exact (shows (.inl here)).imp_left False.elim
    · exact .inl later
    · exact (shows (.inr shown)).imp_left False.elim

theorem Gives.get {next : Module → Build β} (h : ∀ m, Ready classes m → Gives classes t (next m) E W) :
    Gives classes t (MonadState.get >>= next) E W := fun m ready => .get (h m ready m ready)

theorem Gives.ofJob {job : Job α} (h : job.Completes Script.literalFaults fun a => E → V a) :
    Gives classes t (Build.ofJob job) E V := by
  refine fun m ready => .ofJob fun log => ?_
  have outcome := h log
  cases result : (job log).1 with
  | ok a =>
    rw [result] at outcome
    exact ⟨ready, Or.imp_left outcome⟩
  | error f =>
    rw [result] at outcome
    exact outcome

theorem Gives.quiet {job : Job α} (h : job.Completes Script.literalFaults fun _ => True) :
    Gives classes t (Build.ofJob job) False fun _ => False := .ofJob (h.mono fun _ _ => False.elim)

theorem Gives.note (n : Notice) : Gives classes t (Build.note n) False fun _ => False :=
  .quiet (Job.Completes.note n)

/-- A step that need not give the piece gives it where it does. -/
theorem Gives.itself (h : Gives classes t b False V) :
    Gives classes t b (Gives classes t b True V) V := by
  intro m ready log
  have safe := h m ready log
  dsimp only at safe ⊢
  rcases result : b m log with ⟨⟨r, m'⟩, log'⟩
  rw [result] at safe
  cases r with
  | error f => exact safe
  | ok a =>
    refine ⟨safe.1, fun shown => ?_⟩
    obtain gives | shown := shown
    · have full := gives m ready log
      dsimp only at full
      rw [result] at full
      exact full.2 (.inl trivial)
    · exact safe.2 (.inr shown)

theorem addImport_gives (d : Dependency) (wish : Option String) :
    Gives classes t (addImport d wish) False fun _ => False := by
  intro m ready
  refine ((addImport_ensures d wish m).and (ready.sound.addImport d wish)).mono ?_
  rintro _ m' ⟨⟨name, rfl, ⟨-, -, rfl⟩ | ⟨-, -, rfl⟩ | ⟨-, -, -, rfl⟩⟩, sound⟩
  · exact ⟨ready, id⟩
  · exact ⟨ready, id⟩
  · exact ⟨⟨sound, ready.classes⟩, id⟩

theorem addState_gives (name : String) (initial : Value) :
    Gives classes t (addState name initial) False fun _ => False := by
  intro m ready
  refine ((addState_ensures name initial m).and (ready.sound.addState name initial)).mono ?_
  rintro _ m' ⟨⟨-, rfl, rfl⟩ | ⟨-, ⟨f, stops, rfl⟩, rfl⟩ | ⟨-, -, rfl, rfl⟩, sound⟩
  · exact ⟨ready, id⟩
  · exact Script.mem_literalFaults stops
  · exact ⟨⟨sound, ready.classes⟩, Or.imp_right fun shown => shown.append_states _⟩

theorem addEffect_gives (code : String) :
    Gives classes t (modify (addEffect code)) (Holds code t) fun _ => False := by
  refine fun m ready => .modify ?_
  obtain ⟨ready', shows⟩ := ready.addEffect code
  exact ⟨ready', fun shown => .inr (shows shown)⟩

theorem addMethod_gives (name code : String) :
    Gives classes t (modify (addMethod name code)) False fun _ => False := by
  refine fun m ready => .modify ?_
  obtain ⟨ready', shows⟩ := ready.addMethod name code
  exact ⟨ready', fun shown => .inr (shows (shown.imp_left False.elim))⟩

end Gives

end Build

end Pagesmith
