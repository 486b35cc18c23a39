import Pagesmith.Command.Line

/-!
Requests: what a whole command line asks for. The arguments behind a command are read by its own
grammar; arguments that neither grammar knows are refused together.
-/

namespace Pagesmith.Command

/-- What is to be exported, and how; what is not said is left to the settings. -/
structure ExportRequest where
  schema : String
  stack : Option String
  target : Option String
  out : Option String
  projectName : Option String

inductive Task where
  | exportProject (r : ExportRequest)
  | listStacks
  | listComponents

/-- What a command line asks for. -/
structure Request where
  task : Task
  settings : Option String
  workspace : Option String
  level : Option String
  isVerbose : Bool

/-- Why there is no request. -/
inductive Refusal where
  /-- Something is shown instead, with this exit code. -/
  | shown (lines : List String) (code : Nat)
  | wrong (g : Grammar) (what : String)

/-- The version of the generator. -/
def versionText : String := "0.1.0"

/-- A text, unless it is empty or not there. -/
def given? (text : Option String) : Option String :=
  match text with
  | some s => if s == "" then none else some s
  | none => none

def helpLines (g : Grammar) : List String := g.usage ++ g.help

/-- What a stop comes to. -/
def Stop.refusal : Stop → Refusal
  | .help g => .shown (helpLines g) 0
  | .version => .shown [mainGrammar.program ++ " " ++ versionText] 0
  | .wrong g what => .wrong g what

def grammarOf (command : String) : Grammar :=
  if command == "export" then exportGrammar else listGrammar command

def taskOf (command : String) (n : Given) : Task :=
  if command == "export" then
    .exportProject {
      schema := (n.operand.getD []).headD ""
      stack := given? (n.value? .solution)
      target := given? (n.value? .publish)
      out := given? (n.value? .out)
      projectName := given? (n.value? .projectName) }
  else if command == "solutions" then .listStacks
  else .listComponents

/-- The outcome of reading, with a refusal in place of a stop. -/
def settled {α : Type} : Except Stop α → Except Refusal α
  | .ok a => .ok a
  | .error s => .error s.refusal

/-- Fail if there are arguments that nobody knows. -/
def refuseUnknown (texts : List String) : Except Refusal Unit :=
  if texts.isEmpty then .ok ()
  else .error (.wrong mainGrammar
    ("unrecognized arguments: " ++ String.intercalate " " texts))

/-- What arguments ask for. Without a command the help is shown. -/
def request (texts : List String) : Except Refusal Request := do
  let n ← settled (read mainGrammar texts)
  match n.operand with
  | none | some [] => do
    refuseUnknown n.unknown
    .error (.shown (helpLines mainGrammar) 1)
  | some (command :: rest) => do
    let m ← settled (read (grammarOf command) rest)
    refuseUnknown (n.unknown ++ m.unknown)
    pure {
      task := taskOf command m
      settings := given? (n.value? .config)
      workspace := given? (n.value? .workspace)
      level := given? (n.value? .logLevel)
      isVerbose := n.has .verbose }

end Pagesmith.Command
