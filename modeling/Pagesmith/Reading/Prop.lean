import Pagesmith.Catalogue.Basic
import Pagesmith.Job
import Pagesmith.Value.Copy

/-!
Property values of a schema that carry no nodes: literals, code, and actions. A value that looks
like one of the marked forms but is none is taken as a literal, with a notice.
-/

namespace Pagesmith.Reading

/-- The owner with its identifier. -/
def Owner.shown (o : Owner) : String := o.name ++ " (id " ++ o.id.text ++ ")"

/-- The part of the generator that reads schemas. -/
def channel : String := "pagegen.parser.schema_parser"

/-- A property breaks a rule. -/
def shapeNotice (text : String) : Notice := .about .propShape channel .warning text

/-- A property has the mark of a form but not its shape. -/
def malformedNotice (key : String) (owner : Owner) (form : String) : Notice :=
  shapeNotice ("Prop " ++ Text.quoted key ++ " of " ++ owner.name ++ " is not a valid " ++ form ++
    "; treating it as a literal")

/-- Something of a property cannot be copied. -/
def copyNotice (what key : String) (owner : Owner) (cause : Fault) : Notice :=
  .about .serialisation channel .error
    ("Cannot serialise " ++ what ++ Text.quoted key ++ " of " ++ owner.shown ++ ": " ++
      cause.message)

/-- What the rule for a component, if there is one, makes of a property before all other rules. -/
def special? (reading : Option PropReading) (key : String) (v : Value) (owner : Owner) : Job (Option (PropOf Node)) :=
  match reading with
  | some rule => rule key v owner
  | none => pure none

/-- A property value as a literal. Mappings and sequences are copied. -/
def literal (key : String) (owner : Owner) (v : Value) : Job Value :=
  match v with
  | .null | .bool _ | .int _ | .float _ | .str _ | .torn _ => pure v
  | .list _ | .tuple _ | .dict _ | .back _ =>
    match v.copy with
    | .ok w => pure w
    | .error cause => do
      Job.note (copyNotice "prop " key owner cause)
      pure .null
  | v => do
    Job.note (shapeNotice ("Unrecognised value type " ++ v.typeName ++ " in prop " ++
      Text.quoted key ++ " of " ++ owner.name ++ "; treating it as a literal"))
    pure v

/-- The settings of an action entry: those under `config`, or all entries but the kind. -/
def actionConfig? (entries : List (String × Value)) : Option Value :=
  match entries.lookup "config" with
  | none | some .null => some (.dict (Table.erase "type" entries))
  | some (.dict es) => some (.dict es)
  | _ => none

/-- An entry of an action list, if it has a kind and settings that can be copied. -/
def action? (key : String) (owner : Owner) (entry : Value) : Job (Option Action) :=
  match entry.entries? with
  | none => pure none
  | some entries =>
    match (entries.lookup "type").bind Value.str?, actionConfig? entries with
    | some kind, some config =>
      if kind == "" then pure none
      else match config.copy with
        | .ok copy => pure (some ⟨kind, copy⟩)
        | .error cause => do
          Job.note (copyNotice (kind ++ " action config in ") key owner cause)
          pure none
    | _, _ => pure none

/-- The valid entries of an action list. -/
def actionsOf (key : String) (owner : Owner) : List Value → Job (List Action)
  | [] => pure []
  | entry :: r => do
    let first ← action? key owner entry
    let rest ← actionsOf key owner r
    pure (first.toList ++ rest)

/-- An action list as a property value: its one action, its actions, or `null` if none is valid. -/
def actionProp {ν : Type} (key : String) (owner : Owner) (entries : List Value) :
    Job (PropOf ν) := do
  let actions ← actionsOf key owner entries
  match actions with
  | [] => do
    Job.note (shapeNotice ("No valid actions in " ++ Text.quoted key ++ " of " ++ owner.shown ++
      "; prop set to null"))
    pure (.literal .null)
  | a :: more => do
    if actions.length < entries.length then
      Job.note (shapeNotice ("Skipped " ++ toString (entries.length - actions.length) ++
        " invalid action(s) in " ++ Text.quoted key ++ " of " ++ owner.shown))
    pure (if more.isEmpty then .action a else .many (actions.map .action))

end Pagesmith.Reading
