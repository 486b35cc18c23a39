import Pagesmith.Job
import Pagesmith.Value.Json
import Pagesmith.Value.Text

/-!
Literals of the generated code. A literal is JSON text in which angle brackets, the ampersand and
the two Unicode line separators are written as numeric escapes, so that it can neither end a
string nor open markup.
-/

namespace Pagesmith.Script

/-- A character of JSON text as it stands in code. -/
def codeChar (c : Char) : List Char :=
  if c == '<' || c == '>' || c == '&' || c.toNat == 0x2028 || c.toNat == 0x2029 then
    '\\' :: 'u' :: Text.hexDigits 4 c.toNat
  else [c]

/-- JSON text as it stands in code. -/
def codeText (s : String) : String :=
  String.ofList (s.toList.flatMap codeChar)

def stringLiteral (s : String) : String :=
  codeText (Value.jsonString s)

/-- A value as a literal; what JSON has no form for becomes `null`. -/
def literalText (v : Value) : String :=
  codeText v.json

/-- A value of this type became `null`. -/
def alienNotice (typeName : String) : Notice :=
  .plain "pagegen.codegen.render" .warning
    ("Value of type " ++ typeName ++ " cannot be emitted as a literal; using null")

/-- The fault over which writing a literal fails that meets this, if it does. -/
def stop? : Value.Obstacle → Option Fault
  | .circular => some .circular
  | .long => some .longNumber
  | .alien _ | .notFinite => none

/-- The fault over which writing a value as a literal fails, if it does. -/
def literalFault? (v : Value) : Option Fault := v.obstacles.findSome? stop?

/-- Give notice of the values that become `null`, up to what writing fails over. -/
def checkObstacles : List Value.Obstacle → Job Unit
  | [] => pure ()
  | .alien typeName :: r => do Job.note (alienNotice typeName); checkObstacles r
  | o :: r => match stop? o with
    | some f => Job.fail f
    | none => checkObstacles r

/-- A value as a literal, with a notice for each part that becomes `null`. -/
def literal (v : Value) : Job String := do
  checkObstacles v.obstacles
  pure (literalText v)

end Pagesmith.Script
