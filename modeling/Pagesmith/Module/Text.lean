import Pagesmith.Module.Basic
import Pagesmith.Text.Name
import Pagesmith.Text.Part
import Pagesmith.Value.Text

/-!
The text of a module: imports in three groups, then the component with its states, effects and functions; and the
text of its style sheet, one rule for each class with its declarations. A number in a declaration is a length in
pixels, except where the property takes bare numbers, and except for zero.
-/

namespace Pagesmith.Style

/-- The properties that take bare numbers. -/
def unitless : List String := [
  "opacity", "zIndex", "fontWeight", "lineHeight", "flex", "flexGrow", "flexShrink", "order",
  "zoom"]

def valueText (property : String) : Value → String
  | .bool b => if b then "true" else "false"
  | .int n =>
    if !unitless.contains property && n != 0 then toString n ++ "px" else toString n
  | .float x =>
    let t := x.text Value.messageNumbers
    if !unitless.contains property && !x.isZero then t ++ "px" else t
  | v => v.text

def declaration (property : String) (v : Value) : String :=
  "  " ++ Text.kebabCase property ++ ": " ++ valueText property v ++ ";"

/-- The declarations of the entries that are neither `null` nor empty. -/
def declarations (styles : List (String × Value)) : List String :=
  (styles.filter fun e => !e.2.isBlank).map fun e => declaration e.1 e.2

def rule (className : String) (styles : List (String × Value)) : String :=
  "." ++ className ++ " \x7b\n" ++ Text.unlines (declarations styles) ++ "\n\x7d"

end Pagesmith.Style

namespace Pagesmith.Module

/-- The group of an import: packages, sources of the project, style sheets. -/
def importGroup (source : String) : Nat :=
  if Text.hasEnding ".scss" source || Text.hasEnding ".css" source then 2
  else if Dependency.isLocalSource source then 1
  else 0

def importLines (m : Module) (group : Nat) : List String :=
  ((Table.sorted m.imports).filter fun e => importGroup e.1 == group).map fun e =>
    Script.importLine e.1 e.2.main (Table.sorted e.2.named)

/-- The line that imports the view library, with the hooks the module uses. -/
def libraryLine (m : Module) : String :=
  Script.importLine "react" (some "React")
    ((if m.states.isEmpty then [] else [("useState", "useState")]) ++
      (if m.effects.isEmpty then [] else [("useEffect", "useEffect")]))

/-- The line that imports the style sheet of the module. -/
def stylesheetLines (m : Module) : List String :=
  match givenText m.stylesheet with
  | some s => [Script.importLine s (some "styles") []]
  | none => []

/-- The import lines in their groups. -/
def importBlocks (m : Module) : List (List String) :=
  (m.libraryLine :: m.importLines 0) ::
    [m.importLines 1, m.importLines 2 ++ m.stylesheetLines].filter (!·.isEmpty)

/-- The import header. -/
def header (m : Module) : String :=
  String.intercalate "\n\n" (m.importBlocks.map Text.unlines)

/-- The text of the module, the component called `name` or else like the module. -/
def text (m : Module) (name : Option String) : String :=
  let component := Text.toIdentifier ((givenText name).getD m.name)
  m.header ++ "\n\n" ++
    Script.functionComponent component [m.states.map (·.2), m.effects, m.methods.map (·.2)] m.markup

/-- The text of the style sheet; empty if there is no class. -/
def stylesheetText (m : Module) : String :=
  if m.classes.isEmpty then ""
  else String.intercalate "\n\n" (m.classes.map fun c => Style.rule c.1 c.2) ++ "\n"

/-- The text of the style sheet, if the values of all classes have texts. -/
def stylesheetText? (m : Module) : Except Fault String :=
  if m.classes.any fun c => Value.entriesHoldLongNumber c.2 then .error .longNumber else .ok m.stylesheetText

end Pagesmith.Module
