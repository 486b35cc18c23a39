import Pagesmith.Fault
import Pagesmith.Notice

/-!
Jobs: computations that give notices and may fail. The notices given before a failure are kept.
-/

namespace Pagesmith

/-- A computation with notices and a possible failure. -/
abbrev Job (α : Type) := ExceptT Fault (StateM (List Notice)) α

namespace Job

/-- Give a notice. -/
def note (n : Notice) : Job Unit :=
  fun log => (.ok (), log ++ [n])

def fail {α : Type} (f : Fault) : Job α :=
  fun log => (.error f, log)

/-- The outcome, and the notices in the order they were given. -/
def run {α : Type} (job : Job α) : Except Fault α × List Notice :=
  job []

/-- The outcome as a value: a job that goes on after a failure. -/
def settle {α : Type} (job : Job α) : Job (Except Fault α) :=
  fun log => let (outcome, log) := job log; (.ok outcome, log)

/-- A job whose only effect is its outcome. -/
def ofExcept {α : Type} (outcome : Except Fault α) : Job α :=
  fun log => (outcome, log)

/-- An outcome stands for the job that only has it. -/
instance : MonadLift (Except Fault) Job := ⟨ofExcept⟩

end Job

end Pagesmith
