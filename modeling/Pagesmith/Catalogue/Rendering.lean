import Pagesmith.Catalogue.Default
import Pagesmith.Job
import Pagesmith.Page.Describe
import Pagesmith.Text.Name

/-!
Tags and written properties of a node, by the rules of the catalogue. The rules look at property
values from outside only, so they hold for nodes of any type.
-/

namespace Pagesmith.Catalogue

variable {ν : Type}

/-- What only the editor uses of a node. -/
def editorOnly : List String := ["desc", "parentId", "id", "name"]

/-- The kinds of text, with their tags. -/
def typographyTags : List (String × String) :=
  [("Text", "Typography.Text"), ("Title", "Typography.Title"),
    ("Paragraph", "Typography.Paragraph"), ("Link", "Typography.Link")]

/-- The kind of a text is no text. -/
def typographyNotice (found : String) : Notice :=
  .about .propShape "pagegen.metadata.antd" .warning
    ("Typography type must be a " ++ found ++ "; rendering Typography.Text")

/-- The tag of a text, from the property that names its kind. -/
def typographyTag (kind : Option (PropOf ν)) : Job String :=
  match kind with
  | none | some (.literal .null) | some (.raw .null) => pure "Typography.Text"
  | some (.literal (.str s)) =>
    pure ((typographyTags.lookup (if s == "" then "Text" else s)).getD "Typography")
  | some (.literal v) => do
    Job.note (typographyNotice ("string, got " ++ v.shown))
    pure "Typography.Text"
  | some p => do
    Job.note (typographyNotice ("literal string, got " ++ p.typeName))
    pure "Typography.Text"

def tag (rule : TagRule) (props : List (String × PropOf ν)) : Job String :=
  match rule with
  | .fixed t => pure t
  | .typography => typographyTag (props.lookup "type")
  | .icon => pure (iconName (((props.lookup "icon").bind PropOf.literal?).getD .null))

/-- A value that is no property value becomes a literal. -/
def classify (showNode : ν → String) (p : PropOf ν) : PropOf ν :=
  match p with
  | .raw v => .literal v
  | .many items =>
    if (PropOf.many items).isActionList || (PropOf.many items).isSlotList then .many items
    else .literal (.list (PropOf.asValues showNode items))
  | p => p

/-- Move a property to the children; a blank one, or one beside children, is dropped. -/
def promote (name : String) (props : List (String × PropOf ν)) : List (String × PropOf ν) :=
  match props.lookup name with
  | none => props
  | some p =>
    let rest := Table.erase name props
    if Table.has "children" rest || p.isBlankLiteral then rest else rest ++ [("children", p)]

/-- One row that shows every column with a data index. -/
def sampleRows (columns : List Value) : Value :=
  .list [.dict (columns.foldl (fun row column =>
    match (column.entries?.getD []).lookup "dataIndex" with
    | none | some .null => row
    | some index => Table.insert index.text (.str sampleCell) row) [("key", .str "1")])]

/-- One step from the properties of a node to those that are written; `given` are the properties
before the first step. -/
def step (showNode : ν → String) (given : List (String × PropOf ν)) (nodeId : String)
    (props : List (String × PropOf ν)) : PropStep → List (String × PropOf ν)
  | .strip names => props.filter fun e => !editorOnly.contains e.1 && !names.contains e.1
  | .classify => props.map fun e => (e.1, classify showNode e.2)
  | .promote name => promote name props
  | .keyed => Table.insertNew "key" (.literal (.str nodeId)) props
  | .fieldName => match given.lookup "name" with
    | none => props
    | some (.raw (.str s)) => Table.insert "name" (.literal (.str s)) props
    | some (.raw (.int n)) => Table.insert "name" (.literal (.int n)) props
    | some (.raw (.float x)) => Table.insert "name" (.literal (.float x)) props
    | some (.raw (.bool b)) => Table.insert "name" (.literal (.bool b)) props
    | some p => Table.insert "name" p props
  | .listed name => match props.lookup name with
    | some (.literal .null) => props
    | some (.literal v) =>
      if v.items?.isSome then props else Table.insert name (.literal (.list [v])) props
    | _ => props
  | .sampleRows => match props.lookup "columns" with
    | some (.literal v) => match v.items? with
      | some columns => Table.insertNew "dataSource" (.literal (sampleRows columns)) props
      | none => props
    | _ => props

/-- The properties that are written for a node. -/
def written (showNode : ν → String) (steps : List PropStep) (nodeId : String)
    (props : List (String × PropOf ν)) : List (String × PropOf ν) :=
  steps.foldl (step showNode props nodeId) props

/-- The address from which the rows of a table are loaded, if nothing else provides them. -/
def rowsUrl? (props : List (String × PropOf ν)) : Option String :=
  match props.lookup "url" with
  | some (.literal (.str url)) =>
    if Text.trim url == "" || Table.has "dataSource" props then none else some url
  | _ => none

end Pagesmith.Catalogue
