import Pagesmith.Module.Basic
import Pagesmith.Page.Node

/-!
Handlers: what an action does, as a statement of the generated code. Everything that comes from
the settings of an action is written as a literal, and a function of the page is called only by a
name that is an identifier.
-/

namespace Pagesmith

/-- What is written for an action. -/
inductive Handler where
  /-- Open an address. -/
  | openLink
  | showMessage
  /-- Call a function of the page. -/
  | callMethod
  /-- Warn that a component method has not been lifted. -/
  | unresolved
  /-- Log the kind and the settings. -/
  | log
  /-- Call a function by this name with the settings. -/
  | call (function : String)
deriving DecidableEq

/-- The handlers by kind of action. -/
abbrev Handlers := List (String × Handler)

namespace Handlers

/-- The part of the generator that writes actions. -/
def channel : String := "pagegen.codegen.plugins.actions"

def default : Handlers :=
  [("goToLink", .openLink), ("showMessage", .showMessage), ("callMethod", .callMethod),
    ("componentMethod", .unresolved)]

def messageLevels : List String := ["success", "error", "info", "warning", "loading"]

def messageImport : Dependency := ⟨"antd", some "message", none, true, some "^5.0.0"⟩

/-- A message has a level nobody knows. -/
def levelNotice (v : Value) : Notice :=
  .plain channel .warning ("Unsupported message level " ++ v.shown ++ "; using info")

/-- A call names something that is no identifier. -/
def targetNotice (v : Value) : Notice :=
  .about .propShape channel .warning
    ("callMethod target " ++ v.shown ++ " is not an identifier")

/-- A setting as a text in code; one that does not count as given is the empty text. -/
def textSetting (a : Action) (key : String) : Except Fault String := do
  let v := a.setting key
  let text ← if v.isTruthy then v.text? else pure ""
  pure (Script.stringLiteral text)

/-- The level of a message, with a notice if it is replaced. -/
def messageLevel (v : Value) : Job String :=
  match v with
  | .null => pure "info"
  | .str s =>
    if messageLevels.contains s then pure s
    else do
      Job.note (levelNotice v)
      pure "info"
  | v => do
    Job.note (levelNotice v)
    pure "info"

/-- The function that a call means: the mark of page functions is left out. -/
def callTarget (v : Value) : Value :=
  match v with
  | .str s =>
    let mark := "this.methods."
    if Text.hasStart mark s then .str (Text.dropChars mark.length s) else .str s
  | v => v

/-- A statement that warns. -/
def warning (text : String) : String := "console.warn(" ++ Script.stringLiteral text ++ ");"

/-- The statement that calls a function of the page. -/
def callStatement (target : Value) : Job String := do
  let warn : Job String := do
    Job.note (targetNotice target)
    let shown ← target.text?
    pure (warning ("Invalid method reference: " ++ shown))
  match target with
  | .str s => if Text.isIdentifier s then pure (s ++ "();") else warn
  | _ => warn

def statement (h : Handler) (a : Action) : Build String :=
  match h with
  | .openLink => do
    let url ← Build.ofJob (textSetting a "url")
    pure ("window.open(" ++ url ++ ", \"_blank\");")
  | .showMessage => do
    let name ← Module.addImport messageImport (some "message")
    let level ← Build.ofJob (messageLevel (a.setting "type"))
    let text ← Build.ofJob (textSetting a "text")
    pure (name ++ "." ++ level ++ "(" ++ text ++ ");")
  | .callMethod => Build.ofJob (callStatement (callTarget (a.setting "methodName")))
  | .unresolved => do
    let target ← Build.ofJob (a.setting "componentId").text?
    let method ← Build.ofJob (a.setting "method").text?
    pure (warning ("Unresolved component method: " ++ target ++ "." ++ method))
  | .log => do
    let settings ← Build.ofJob (Script.literal a.config)
    pure ("console.log(" ++ Script.stringLiteral ("Action triggered: " ++ a.kind) ++ ", " ++
      settings ++ ");")
  | .call function => do
    let settings ← Build.ofJob (Script.literal a.config)
    pure (function ++ "(" ++ settings ++ ");")

/-- The handler of a kind; a kind without one is logged. -/
def get (hs : Handlers) (kind : String) : Handler :=
  (hs.lookup kind).getD .log

/-- The statements for several actions, each under a comment with its kind. -/
def labelled (hs : Handlers) : List Action → Build (List String)
  | [] => pure []
  | a :: r => do
    let first ← statement (hs.get a.kind) a
    let rest ← labelled hs r
    pure (("// " ++ Text.toIdentifier a.kind ++ "\n" ++ first) :: rest)

/-- The statements for the actions of one event. A single action needs no comment. -/
def statements (hs : Handlers) : List Action → Build (List String)
  | [a] => do
    let only ← statement (hs.get a.kind) a
    pure [only]
  | actions => labelled hs actions

end Handlers

end Pagesmith
