import Pagesmith.Delivery.Errand

/-!
Replies: what a command shows, on which channel, and the code it ends with.
-/

namespace Pagesmith.Command

/-- Something on the error channel. -/
inductive Remark where
  | line (text : String)
  /-- A notice, which is shown with the time. -/
  | notice (n : Notice)
  /-- The trace of a failure, with what is known of its reason. -/
  | trace (reason : Option String)

/-- What a command shows, and the code it ends with. -/
structure Reply where
  code : Nat
  lines : List String
  remarks : List Remark
  /-- The weight from which notices are shown, once it has been set. -/
  level : Option Level

namespace Reply

/-- A reply without anything. -/
def silent (code : Nat) : Reply := ⟨code, [], [], none⟩

/-- What failed, on one line. -/
def errorLine (text : String) : Remark := .line ("✗ " ++ text)

/-- What has been done, on one line. -/
def successLine (text : String) : String := "✓ " ++ text

end Reply

/-- A notice after the time at which it is given. -/
def noticeLine (time : String) (n : Notice) : String :=
  time ++ " - " ++ n.channel ++ " - " ++ n.level.name ++ " - " ++ n.text

/-- The remarks for notices of at least some weight. -/
def remarksOf (level : Level) (log : List Notice) : List Remark :=
  (log.filter fun n => level.rank ≤ n.level.rank).flatMap fun n =>
    .notice n :: (if n.traced then [.trace none] else [])

end Pagesmith.Command
