import Pagesmith.Text.Name
import Pagesmith.Value.Basic

/-!
Notices: what the generator has to say while it works on. A notice names the part that gives it,
its weight, and, where a rule of the schema was broken, a code.
-/

namespace Pagesmith

/-- The weight of a notice. -/
inductive Level where
  | debug | info | warning | error
deriving DecidableEq

namespace Level

/-- The number that orders weights. -/
def rank : Level → Nat
  | debug => 10
  | info => 20
  | warning => 30
  | error => 40

/-- The name of a weight. -/
def name : Level → String
  | debug => "DEBUG"
  | info => "INFO"
  | warning => "WARNING"
  | error => "ERROR"

/-- The weight that a setting names, in any case; without a name that is known it is `info`. -/
def ofSetting (s : String) : Level :=
  let s := Text.lower s
  if s == "debug" then debug
  else if s == "warn" || s == "warning" then warning
  else if s == "error" then error
  else info

end Level

/-- What kind of rule a notice is about. -/
inductive Topic where
  | unknownComponent | propShape | serialisation | plugin | pipeline
deriving DecidableEq

def Topic.code : Topic → String
  | unknownComponent => "UNKNOWN_COMPONENT"
  | propShape => "INVALID_PROP_SHAPE"
  | serialisation => "SERIALIZATION_FAILURE"
  | plugin => "PLUGIN_FAILURE"
  | pipeline => "PIPELINE_FAILURE"

/-- The end of a stage, with figures about it. -/
structure StageEvent where
  stage : String
  figures : List (String × Value)

/-- Something said while working on. -/
structure Notice where
  channel : String
  level : Level
  topic : Option Topic
  text : String
  event : Option StageEvent
  /-- The notice is followed by the trace of a failure. -/
  traced : Bool

namespace Notice

/-- A notice without topic, event or trace. -/
def plain (channel : String) (level : Level) (text : String) : Notice :=
  ⟨channel, level, none, text, none, false⟩

def about (topic : Topic) (channel : String) (level : Level) (text : String) : Notice :=
  ⟨channel, level, some topic, text, none, false⟩

end Notice

end Pagesmith
