import Mathlib.Data.Set.Basic
import Pagesmith.Job

/-!
What a job yields when it does not fail, whatever notices were given before it; that it does not
fail at all; and that it fails over certain faults only.
-/

namespace Pagesmith.Job

variable {α β : Type}

section Steps

variable {job : Job α} {log : List Notice}

theorem bind_run {a : α} {log' : List Notice} (h : job log = (.ok a, log')) (next : α → Job β) :
    (job >>= next) log = next a log' := by
  change ExceptT.bindCont next (job log).1 (job log).2 = _
  rw [h]
  rfl

theorem bind_ok {a : α} (h : (job log).1 = .ok a) (next : α → Job β) :
    ((job >>= next) log).1 = (next a (job log).2).1 := by
  change (ExceptT.bindCont next (job log).1 (job log).2).1 = _
  rw [h]
  rfl

theorem bind_error {f : Fault} (h : (job log).1 = .error f) (next : α → Job β) :
    ((job >>= next) log).1 = .error f := by
  change (ExceptT.bindCont next (job log).1 (job log).2).1 = _
  rw [h]
  rfl

end Steps

/-- Every outcome of the job that is no failure has this property. -/
def Yields (job : Job α) (Q : α → Prop) : Prop :=
  ∀ log a, (job log).1 = .ok a → Q a

theorem Yields.pure {a : α} {Q : α → Prop} (h : Q a) : Yields (Pure.pure a) Q := by
  intro log b ok
  cases ok
  exact h

theorem Yields.bind {job : Job α} {next : α → Job β} {P : α → Prop} {Q : β → Prop}
    (first : job.Yields P) (rest : ∀ a, P a → (next a).Yields Q) : (job >>= next).Yields Q := by
  intro log b ok
  cases result : (job log).1 with
  | ok a =>
    rw [bind_ok result] at ok
    exact rest a (first log a result) _ b ok
  | error f =>
    rw [bind_error result] at ok
    cases ok

theorem Yields.ofExcept {outcome : Except Fault α} {Q : α → Prop} (h : ∀ a, outcome = .ok a → Q a) :
    Yields (ofExcept outcome) Q := fun _ => h

/-- Whatever comes of a job is what it yields after something that was said. -/
theorem Yields.ran (job : Job α) : job.Yields fun a => ∃ log, (job log).1 = .ok a := fun log _ ok => ⟨log, ok⟩

theorem Yields.any (job : Job α) : job.Yields fun _ => True := fun _ _ _ => trivial

/-- The job ends with this outcome, whatever notices were given before it. -/
def Ends (job : Job α) (a : α) : Prop := ∀ log, (job log).1 = .ok a

theorem Ends.pure (a : α) : Ends (Pure.pure a) a := fun _ => rfl

theorem Ends.bind {job : Job α} {next : α → Job β} {a : α} {b : β} (first : job.Ends a)
    (rest : (next a).Ends b) : (job >>= next).Ends b :=
  fun log => (bind_ok (first log) next).trans (rest _)

theorem Ends.note (n : Notice) : Ends (note n) () := fun _ => rfl

theorem Ends.ofExcept {outcome : Except Fault α} {a : α} (h : outcome = .ok a) :
    Ends (ofExcept outcome) a := fun _ => h

theorem Ends.settle {job : Job α} {a : α} (h : job.Ends a) : job.settle.Ends (.ok a) :=
  fun log => congrArg Except.ok (h log)

/-- The job does not fail, whatever notices were given before it, and what it yields has this
property. -/
def Gives (job : Job α) (Q : α → Prop) : Prop := ∀ log, ∃ a, (job log).1 = .ok a ∧ Q a

theorem Ends.gives {job : Job α} {a : α} (h : job.Ends a) : job.Gives (· = a) :=
  fun log => ⟨a, h log, rfl⟩

theorem Gives.pure {a : α} {Q : α → Prop} (h : Q a) : Gives (Pure.pure a) Q := fun _ => ⟨a, rfl, h⟩

theorem Gives.note (n : Notice) : Gives (note n) fun _ => True := fun _ => ⟨(), rfl, trivial⟩

theorem Gives.mono {job : Job α} {P Q : α → Prop} (h : job.Gives P) (weaker : ∀ a, P a → Q a) :
    job.Gives Q := by
  intro log
  obtain ⟨a, ok, holds⟩ := h log
  exact ⟨a, ok, weaker a holds⟩

theorem Gives.and {job : Job α} {P Q : α → Prop} (h : job.Gives P) (more : job.Yields Q) :
    job.Gives fun a => P a ∧ Q a := by
  intro log
  obtain ⟨a, ok, holds⟩ := h log
  exact ⟨a, ok, holds, more log a ok⟩

theorem Gives.yields {job : Job α} {Q : α → Prop} (h : job.Gives Q) : job.Yields Q := by
  intro log a ok
  obtain ⟨b, given, holds⟩ := h log
  cases ok.symm.trans given
  exact holds

theorem Gives.bind {job : Job α} {next : α → Job β} {P : α → Prop} {Q : β → Prop}
    (first : job.Gives P) (rest : ∀ a, P a → (next a).Gives Q) : (job >>= next).Gives Q := by
  intro log
  obtain ⟨a, ok, holds⟩ := first log
  rw [bind_ok ok]
  exact rest a holds _

/-- The outcome has this property, or it is a failure over one of these faults. -/
def Meets (faults : Set Fault) (Q : α → Prop) : Except Fault α → Prop
  | .ok a => Q a
  | .error f => f ∈ faults

/-- Whatever notices were given before it, what the job yields has this property, and it fails over none but these
faults. -/
def Completes (job : Job α) (faults : Set Fault) (Q : α → Prop) : Prop :=
  ∀ log, Meets faults Q (job log).1

section Completes

variable {job : Job α} {faults : Set Fault} {P Q : α → Prop}

theorem Meets.mono {more : Set Fault} {outcome : Except Fault α} (h : Meets faults P outcome)
    (weaker : ∀ a, P a → Q a) (sub : faults ⊆ more) : Meets more Q outcome := by
  cases outcome with
  | ok a => exact weaker a h
  | error f => exact sub h

theorem Meets.bind {outcome : Except Fault α} {next : α → Except Fault β} {R : β → Prop}
    (first : Meets faults P outcome) (rest : ∀ a, P a → Meets faults R (next a)) :
    Meets faults R (outcome >>= next) := by
  cases outcome with
  | ok a => exact rest a first
  | error f => exact first

theorem Meets.ok {outcome : Except Fault α} (h : Meets ∅ P outcome) : ∃ a, outcome = .ok a ∧ P a := by
  cases outcome with
  | ok a => exact ⟨a, rfl, h⟩
  | error f => exact h.elim

theorem Completes.mono (h : job.Completes faults P) (weaker : ∀ a, P a → Q a) : job.Completes faults Q :=
  fun log => (h log).mono weaker (Set.Subset.refl _)

theorem Completes.pure {a : α} (h : Q a) : Completes (Pure.pure a) faults Q := fun _ => h

theorem Completes.fail {f : Fault} (h : f ∈ faults) : Completes (fail f) faults Q := fun _ => h

theorem Completes.note (n : Notice) : Completes (note n) faults fun _ => True := fun _ => trivial

theorem Completes.ofExcept {outcome : Except Fault α} (h : Meets faults Q outcome) :
    Completes (ofExcept outcome) faults Q := fun _ => h

/-- A job whose first part meets a condition after these notices goes on from what that part yields. -/
theorem meets_bind {log : List Notice} {next : α → Job β} {R : β → Prop} (first : Meets faults P (job log).1)
    (rest : ∀ a, (job log).1 = .ok a → P a → Meets faults R (next a (job log).2).1) :
    Meets faults R ((job >>= next) log).1 := by
  cases result : (job log).1 with
  | ok a =>
    rw [result] at first
    rw [bind_ok result]
    exact rest a result first
  | error f =>
    rw [result] at first
    rw [bind_error result]
    exact first

theorem Completes.bind {next : α → Job β} {R : β → Prop} (first : job.Completes faults P)
    (rest : ∀ a, P a → (next a).Completes faults R) : (job >>= next).Completes faults R :=
  fun log => meets_bind (first log) fun a _ holds => rest a holds _

theorem Completes.and (h : job.Completes faults P) (more : job.Yields Q) : job.Completes faults fun a => P a ∧ Q a := by
  intro log
  have outcome := h log
  cases result : (job log).1 with
  | ok a =>
    rw [result] at outcome
    exact ⟨outcome, more log a result⟩
  | error f =>
    rw [result] at outcome
    exact outcome

theorem Gives.completes (h : job.Gives Q) : job.Completes faults Q := by
  intro log
  obtain ⟨a, ok, holds⟩ := h log
  rw [ok]
  exact holds

theorem Completes.gives (h : job.Completes ∅ Q) : job.Gives Q := fun log => (h log).ok

theorem Completes.yields (h : job.Completes faults Q) : job.Yields Q := by
  intro log a ok
  have outcome := h log
  rw [ok] at outcome
  exact outcome

end Completes

end Pagesmith.Job
