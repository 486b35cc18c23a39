import Pagesmith.Module.Basic
import Pagesmith.Proofs.Job

/-!
Writing a module, step by step: what one step does when it is run, and what it ensures whatever
notices were given before it.
-/

namespace Pagesmith.Build

variable {α β : Type}

theorem run_bind_ok {b : Build α} {m m' : Module} {log log' : List Notice} {a : α}
    (h : b m log = ((.ok a, m'), log')) (next : α → Build β) :
    (b >>= next) m log = next a m' log' := by
  change (ExceptT.bindCont next (b m log).1.1) (b m log).1.2 (b m log).2 = _
  rw [h]
  rfl

theorem run_bind_error {b : Build α} {m m' : Module} {log log' : List Notice} {f : Fault}
    (h : b m log = ((.error f, m'), log')) (next : α → Build β) :
    (b >>= next) m log = ((.error f, m'), log') := by
  change (ExceptT.bindCont next (b m log).1.1) (b m log).1.2 (b m log).2 = _
  rw [h]
  rfl

theorem ofJob_bind (job : Job α) (next : α → Job β) :
    ofJob (job >>= next) = ofJob job >>= fun a => ofJob (next a) := by
  funext m log
  rcases result : job log with ⟨r, log'⟩
  have run : ofJob job m log = ((r, m), log') := by rw [ofJob, result]
  cases r with
  | ok a =>
    rw [run_bind_ok run, ofJob, Job.bind_run result]
    rfl
  | error f =>
    have stop : (job >>= next) log = (.error f, log') := by
      change ExceptT.bindCont next (job log).1 (job log).2 = _
      rw [result]
      rfl
    rw [run_bind_error run, ofJob, stop]

/-- Run on a module, a step has an outcome and leaves a module with this property, whatever was
said before. -/
def Ensures (b : Build α) (m : Module) (Q : Except Fault α → Module → Prop) : Prop :=
  ∀ log, Q (b m log).1.1 (b m log).1.2

theorem Ensures.mono {b : Build α} {m : Module} {P Q : Except Fault α → Module → Prop}
    (h : Ensures b m P) (weaker : ∀ r m', P r m' → Q r m') : Ensures b m Q :=
  fun log => weaker _ _ (h log)

theorem Ensures.and {b : Build α} {m : Module} {P Q : Except Fault α → Module → Prop}
    (h : Ensures b m P) (h' : Ensures b m Q) : Ensures b m fun r m' => P r m' ∧ Q r m' :=
  fun log => ⟨h log, h' log⟩

/-- Whatever comes of a step is what it comes to after something that was said. -/
theorem Ensures.ran (b : Build α) (m : Module) : Ensures b m fun r m' => ∃ log, (b m log).1 = (r, m') :=
  fun log => ⟨log, rfl⟩

theorem Ensures.pure {a : α} {m : Module} {Q : Except Fault α → Module → Prop} (h : Q (.ok a) m) :
    Ensures (pure a) m Q := fun _ => h

theorem Ensures.bind {b : Build α} {next : α → Build β} {m : Module}
    {Q : Except Fault β → Module → Prop}
    (h : Ensures b m fun r m' => match r with
      | .ok a => Ensures (next a) m' Q
      | .error f => Q (.error f) m') : Ensures (b >>= next) m Q := by
  intro log
  have first := h log
  rcases result : b m log with ⟨⟨r, m'⟩, log'⟩
  rw [result] at first
  cases r with
  | ok a =>
    rw [run_bind_ok result]
    exact first log'
  | error f =>
    rw [run_bind_error result]
    exact first

/-- Two steps, where what the first leaves is enough for the end if it fails. -/
theorem Ensures.seq {b : Build α} {next : α → Build β} {m : Module} {I J : Module → Prop}
    (first : Ensures b m fun _ m' => I m') (weaker : ∀ m', I m' → J m')
    (rest : ∀ a m', I m' → Ensures (next a) m' fun _ m'' => J m'') :
    Ensures (b >>= next) m fun _ m' => J m' := by
  refine .bind (first.mono fun r m' h => ?_)
  cases r with
  | ok a => exact rest a m' h
  | error f => exact weaker m' h

theorem Ensures.get {next : Module → Build β} {m : Module} {Q : Except Fault β → Module → Prop}
    (h : Ensures (next m) m Q) : Ensures (get >>= next) m Q := h

theorem Ensures.modify {f : Module → Module} {m : Module} {Q : Except Fault PUnit → Module → Prop}
    (h : Q (.ok ⟨⟩) (f m)) : Ensures (modify f) m Q := fun _ => h

theorem Ensures.ofJob {job : Job α} {m : Module} {Q : Except Fault α → Module → Prop}
    (h : ∀ log, Q (job log).1 m) : Ensures (ofJob job) m Q := fun log => h log

/-- A job that gives something leaves the module to what comes after it. -/
theorem Ensures.bindJob {job : Job α} {P : α → Prop} {next : α → Build β} {m : Module}
    {Q : Except Fault β → Module → Prop} (first : job.Gives P) (rest : ∀ a, P a → Ensures (next a) m Q) :
    Ensures (Build.ofJob job >>= next) m Q := by
  refine .bind (.ofJob fun log => ?_)
  obtain ⟨a, given, holds⟩ := first log
  rw [given]
  exact rest a holds

/-- Run as a job, a step gives its outcome and the module that it leaves. -/
theorem Ensures.runOn {b : Build α} {m : Module} {Q : Except Fault α → Module → Prop} (h : Ensures b m Q) :
    (Build.runOn m b).Gives fun r => Q r.1 r.2 := fun log => ⟨_, rfl, h log⟩

/-- A step that keeps a property of the module, also when it fails. -/
def Keeps (I : Module → Prop) (b : Build α) : Prop :=
  ∀ m, I m → Ensures b m fun _ m' => I m'

section Keeps

variable {I : Module → Prop}

theorem Keeps.pure (a : α) : Keeps I (Pure.pure a) := fun _ h => .pure h

theorem Keeps.bind {b : Build α} {next : α → Build β} (first : Keeps I b)
    (rest : ∀ a, Keeps I (next a)) : Keeps I (b >>= next) :=
  fun m h => (first m h).seq (fun _ h' => h') rest

theorem Keeps.get {next : Module → Build β} (h : ∀ m, Keeps I (next m)) :
    Keeps I (MonadState.get >>= next) := fun m holds => .get (h m m holds)

theorem Keeps.modify {f : Module → Module} (h : ∀ m, I m → I (f m)) :
    Keeps I (modify f) := fun m holds => .modify (h m holds)

theorem Keeps.ofJob (job : Job α) : Keeps I (Build.ofJob job) := fun _ h => .ofJob fun _ => h

theorem Keeps.note (n : Notice) : Keeps I (Build.note n) := Keeps.ofJob _

end Keeps

/-- A step that keeps a property of the module, also when it fails, and whose value has this property. -/
def Delivers (I : Module → Prop) (b : Build α) (V : α → Prop) : Prop :=
  ∀ m, I m → Ensures b m fun r m' => I m' ∧ ∀ a, r = .ok a → V a

section Delivers

variable {I : Module → Prop} {V : α → Prop} {W : β → Prop} {b : Build α}

theorem Delivers.pure {a : α} (h : V a) : Delivers I (Pure.pure a) V := by
  refine fun m holds => .pure ⟨holds, ?_⟩
  rintro _ ⟨⟩
  exact h

theorem Delivers.bind {next : α → Build β} (first : Delivers I b V)
    (rest : ∀ a, V a → Delivers I (next a) W) : Delivers I (b >>= next) W := by
  refine fun m holds => .bind ((first m holds).mono ?_)
  rintro r m' ⟨kept, value⟩
  cases r with
  | ok a => exact rest a (value a rfl) m' kept
  | error f => exact ⟨kept, fun a same => nomatch same⟩

theorem Delivers.mono {V' : α → Prop} (h : Delivers I b V) (weaker : ∀ a, V a → V' a) : Delivers I b V' :=
  fun m holds => (h m holds).mono fun _ _ ⟨kept, value⟩ => ⟨kept, fun a same => weaker a (value a same)⟩

theorem Delivers.get {next : Module → Build β} (h : ∀ m, I m → Delivers I (next m) W) :
    Delivers I (MonadState.get >>= next) W := fun m holds => .get (h m holds m holds)

theorem Delivers.ofJob {job : Job α} (h : job.Yields V) : Delivers I (Build.ofJob job) V :=
  fun _ holds => .ofJob fun log => ⟨holds, h log⟩

theorem Delivers.keeps (h : Delivers I b V) : Keeps I b := fun m holds => (h m holds).mono fun _ _ => And.left

theorem Keeps.delivers (h : Keeps I b) : Delivers I b fun _ => True :=
  fun m holds => (h m holds).mono fun _ _ kept => ⟨kept, fun _ _ => trivial⟩

theorem Keeps.delivers_value {a : α} (h : Keeps I b) (value : ∀ m, b.Ensures m fun r _ => r = .ok a) :
    Delivers I b (· = a) := by
  refine fun m holds => ((h m holds).and (value m)).mono ?_
  rintro r m' ⟨kept, rfl⟩
  exact ⟨kept, fun a' same => (Except.ok.inj same).symm⟩

/-- What the step delivers is enough for the next one, and nothing is asked for if it fails. -/
theorem Delivers.ensures_bind {next : α → Build β} {m : Module} {Q : Module → Prop} (first : Delivers I b V)
    (start : I m) (rest : ∀ a m', V a → I m' → Ensures (next a) m' fun r m'' => r.toOption.isSome → Q m'') :
    Ensures (b >>= next) m fun r m'' => r.toOption.isSome → Q m'' := by
  refine .bind ((first m start).mono ?_)
  rintro r m' ⟨kept, value⟩
  cases r with
  | ok a => exact rest a m' (value a rfl) kept
  | error f => exact fun done => nomatch done

end Delivers

/-- A way to say of steps what their values are like, which goes through the steps of a program one after the
other: what is known of the first value may be used for what is said of the second. -/
structure Judgement where
  Holds {α : Type} : Build α → (α → Prop) → Prop
  pure {α : Type} {a : α} {V : α → Prop} (h : V a) : Holds (Pure.pure a) V
  bind {α β : Type} {b : Build α} {next : α → Build β} {V : α → Prop} {W : β → Prop} (first : Holds b V)
    (rest : ∀ a, Holds (next a) fun c => V a → W c) : Holds (b >>= next) W
  mono {α : Type} {b : Build α} {V W : α → Prop} (h : Holds b V) (weaker : ∀ a, V a → W a) : Holds b W
  ofJob {α : Type} {job : Job α} {V : α → Prop} (h : job.Yields V) : Holds (Build.ofJob job) V

/-- What steps deliver that keep a property of the module. -/
def delivering (I : Module → Prop) : Judgement where
  Holds := Delivers I
  pure := Delivers.pure
  bind first rest := by
    refine .bind first fun a value m holds => (rest a m holds).mono ?_
    rintro r m' ⟨kept, weaker⟩
    exact ⟨kept, fun c same => weaker c same value⟩
  mono := Delivers.mono
  ofJob := Delivers.ofJob

/-- What the values of steps are like that end in `F`, if there is no way into `F` from outside. It may be said
with a view to the end: if the last of several steps ends in `F`, so did those before it. -/
def foreseeing (F : Module → Prop) : Judgement where
  Holds b V := ∀ m, Ensures b m fun r m' => (F m' → F m) ∧ ∀ a, r = .ok a → F m' → V a
  pure h := by
    refine fun m => .pure ⟨id, ?_⟩
    rintro _ ⟨⟩ -
    exact h
  bind first rest := by
    refine fun m => .bind ((first m).mono ?_)
    rintro r m' ⟨back, value⟩
    cases r with
    | error f => exact ⟨back, fun a same => nomatch same⟩
    | ok a =>
      refine (rest a m').mono ?_
      rintro r m'' ⟨back', value'⟩
      exact ⟨back ∘ back', fun c same last => value' c same last (value a rfl (back' last))⟩
  mono h weaker m := by
    refine (h m).mono ?_
    rintro r m' ⟨back, value⟩
    exact ⟨back, fun a same last => weaker a (value a same last)⟩
  ofJob h m := .ofJob fun log => ⟨id, fun a same _ => h log a same⟩

section Foreseeing

variable {F : Module → Prop} {b : Build α}

/-- A step that does not come into `F` from outside. -/
theorem Keeps.foresees (h : Keeps (fun m => ¬ F m) b) : (foreseeing F).Holds b fun _ => True := by
  intro m
  by_cases inside : F m
  · exact fun log => ⟨fun _ => inside, fun _ _ _ => trivial⟩
  · exact (h m inside).mono fun r m' outside => ⟨(absurd · outside), fun _ _ _ => trivial⟩

theorem Keeps.foresees_value (h : Keeps (fun m => ¬ F m) b) :
    (foreseeing F).Holds b fun a => ∃ m log, (b m log).1.1 = .ok a := by
  intro m log
  by_cases inside : F m
  · exact ⟨fun _ => inside, fun a same _ => ⟨m, log, same⟩⟩
  · exact ⟨(absurd · (h m inside log)), fun a same _ => ⟨m, log, same⟩⟩

end Foreseeing

/-- A step that fails over none but these faults, whatever module it is run on. -/
def Completes (faults : Set Fault) (b : Build α) : Prop :=
  ∀ m, Ensures b m fun r _ => Job.Meets faults (fun _ => True) r

section Completes

variable {faults : Set Fault}

theorem Completes.pure (a : α) : Completes faults (Pure.pure a : Build α) := fun _ => .pure trivial

theorem Completes.bind {b : Build α} {next : α → Build β} (first : Completes faults b)
    (rest : ∀ a, Completes faults (next a)) : Completes faults (b >>= next) := by
  intro m
  refine .bind ((first m).mono fun r m' outcome => ?_)
  cases r with
  | ok a => exact rest a m'
  | error f => exact outcome

theorem Completes.get {next : Module → Build β} (h : ∀ m, Completes faults (next m)) :
    Completes faults (MonadState.get >>= next) := fun m => .get (h m m)

theorem Completes.modify (f : Module → Module) : Completes faults (modify f) := fun _ => .modify trivial

theorem Completes.ofJob {job : Job α} {P : α → Prop} (h : job.Completes faults P) :
    Completes faults (Build.ofJob job) :=
  fun _ => .ofJob fun log => (h log).mono (fun _ _ => trivial) (Set.Subset.refl _)

theorem Completes.note (n : Notice) : Completes faults (Build.note n) := .ofJob (.note n)

end Completes

end Pagesmith.Build
