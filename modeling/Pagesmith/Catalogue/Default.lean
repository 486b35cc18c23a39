import Pagesmith.Catalogue.Basic
import Pagesmith.Value.Text

/-!
The default catalogue: the components of the editor, mapped onto Ant Design, and the rules by which their nodes are
read and written.
-/

namespace Pagesmith.Catalogue

def libraryVersion : String := "^5.0.0"

def iconPackage : String := "@ant-design/icons"

/-- The icon that stands for a missing one. -/
def defaultIcon : String := "QuestionCircleOutlined"

/-- The text names an icon. -/
def iconName (v : Value) : String :=
  match v with
  | .str s => if Text.isIdentifier s then s else defaultIcon
  | _ => defaultIcon

/-- What a sample row shows in every column. -/
def sampleCell : String := "Sample data"

def libraryImport (exportName subName : Option String) : Dependency :=
  ⟨"antd", exportName, subName, true, some libraryVersion⟩

def iconImport (exportName : Option String) : Dependency :=
  ⟨iconPackage, exportName, none, true, some libraryVersion⟩

/-- The methods of a component that can be opened and closed. -/
def openClose (closeEvent : String) (confirmEvent : Option String) : List ComponentMethod :=
  [⟨"open", some ⟨"open", .bool true⟩, none, false⟩,
    ⟨"close", some ⟨"open", .bool false⟩, some closeEvent, closeEvent == "onOpenChange"⟩] ++
  match confirmEvent with
  | some e => [⟨"handleOk", some ⟨"open", .bool false⟩, some e, false⟩]
  | none => []

/-- A component without methods. -/
def plainMaterial (component : String) (dependency : Dependency) (isContainer : Bool) : Material :=
  ⟨component, dependency, isContainer, []⟩

/-- A part of a component of the library. -/
def partMaterial (owner part : String) (isContainer : Bool) : Material :=
  plainMaterial (owner ++ "." ++ part) (libraryImport (some owner) (some part)) isContainer

/-- The components of the editor. -/
def defaultMaterials : List (String × Material) :=
  [("Page", plainMaterial "Page" ⟨"@/components/Page", none, none, false, none⟩ true),
    ("Grid", plainMaterial "Row" (libraryImport (some "Row") none) true),
    ("GridColumn", plainMaterial "Col" (libraryImport (some "Col") none) true),
    ("ListItem", partMaterial "List" "Item" true),
    ("FormItem", partMaterial "Form" "Item" true),
    ("Modal", ⟨"Modal", libraryImport none none, true, openClose "onCancel" (some "onOk")⟩),
    ("Container", plainMaterial "div" Dependency.none true),
    ("TableColumn", partMaterial "Table" "Column" false),
    ("Tooltip", ⟨"Tooltip", libraryImport none none, true, openClose "onOpenChange" none⟩),
    ("Radio", partMaterial "Radio" "Group" true),
    ("Dropdown", ⟨"Dropdown", libraryImport none none, true, openClose "onOpenChange" none⟩),
    ("PageHeader",
      plainMaterial "PageHeader" ⟨"@/components", some "PageHeader", none, true, none⟩ false),
    ("TabPane", partMaterial "Tabs" "TabPane" true),
    ("Icon", plainMaterial defaultIcon (iconImport none) false)] ++
  ["List", "Typography", "Form", "Button", "Input", "InputNumber", "Select", "Image", "Slider",
    "Switch", "Pagination"].map (fun name =>
      (name, plainMaterial name (libraryImport none none) (name == "List" || name == "Form"))) ++
  ["Space", "Avatar", "Card", "Table", "Upload", "Breadcrumb", "Menu", "Steps", "Tabs"].map
    (fun name => (name, plainMaterial name (libraryImport none none) true))

/-- The rules by which components are written, where the usual rule does not do. -/
def defaultRenderings : List (String × Rendering) :=
  [("Button", ⟨.fixed "Button", standardSteps ++ [.promote "text"], false⟩),
    ("Modal", ⟨.fixed "Modal", .strip ["visibleInEditor"] :: standardSteps, false⟩),
    ("Typography",
      ⟨.typography, .strip ["type"] :: standardSteps ++ [.promote "content"], false⟩),
    ("List", ⟨.fixed "List", standardSteps, false⟩),
    ("ListItem", ⟨.fixed "List.Item", standardSteps, false⟩),
    ("Form", ⟨.fixed "Form", standardSteps, false⟩),
    ("FormItem", ⟨.fixed "Form.Item", standardSteps ++ [.fieldName], false⟩),
    ("Dropdown",
      ⟨.fixed "Dropdown", standardSteps ++ [.promote "buttonText", .listed "trigger"], false⟩),
    ("TabPane", ⟨.fixed "Tabs.TabPane", standardSteps ++ [.keyed], false⟩),
    ("PageHeader", ⟨.fixed "PageHeader", standardSteps, false⟩),
    ("Icon", ⟨.icon, .strip ["type", "icon"] :: standardSteps, false⟩),
    ("Table", ⟨.fixed "Table", .strip ["url"] :: standardSteps ++ [.sampleRows], true⟩),
    ("TableColumn",
      ⟨.fixed "Table.Column", .strip ["type"] :: standardSteps ++ [.keyed], false⟩)]

/-- An icon is the component that the property `icon` names. -/
def iconRule : NodeRule := fun n context => do
  let icon := iconName ((n.prop? "icon").getD .null)
  let dependency := iconImport (some icon)
  Reading.require dependency
  let layer ← context.build icon dependency
  return some (.mk { layer with props := Table.insert "icon" (.literal (.str icon)) layer.props })

/-- A node has both children and a property that stands for children. -/
def doubleChildrenNotice (name id prop : String) : Notice :=
  .about .propShape "pagegen.metadata.antd" .warning
    (name ++ " node " ++ id ++ " has both children and " ++ Text.quoted prop ++ "; dropping " ++
      Text.quoted prop)

/-- Move a property to the children, unless the schema lists children. -/
def promoteChange (prop : String) : NodeChange := fun n layer =>
  match layer.props.lookup prop with
  | none => pure layer
  | some p =>
    let rest := Table.erase prop layer.props
    if n.hasChildren || Table.has "children" rest then do
      Job.note (doubleChildrenNotice layer.schemaName layer.id prop)
      pure { layer with props := rest }
    else if p.isBlankLiteral then pure { layer with props := rest }
    else pure { layer with props := rest ++ [("children", p)] }

/-- Numbers of a property are literal texts. -/
def numberAsText (prop : String) : PropReading := fun key v _ =>
  if key == prop then
    match v with
    | .int _ | .float _ => return some (.literal (.str (← v.text?)))
    | _ => pure none
  else pure none

def default : Catalogue :=
  { materials := defaultMaterials
    renderings := defaultRenderings
    nodeRules := [("Icon", iconRule)]
    nodeChanges := [("Button", promoteChange "text"), ("Typography", promoteChange "content")]
    propReadings := [("FormItem", numberAsText "name"), ("TabPane", numberAsText "key")] }

end Pagesmith.Catalogue
