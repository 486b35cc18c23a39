import Pagesmith.Script.Literal
import Pagesmith.Text.Copies
import Pagesmith.Text.Part
import Pagesmith.Text.Name

/-!
Statements of a generated page: state hooks, event functions, effects, imports, and the function
component that holds them.
-/

namespace Pagesmith.Script

def indentStep : String := "  "

/-- `n` steps of indentation. -/
def indentation (n : Nat) : String := String.ofList (List.replicate (2 * n) ' ')

/-- Every line of a text moved right; empty lines stay empty. -/
def indentBlock (n : Nat) (text : String) : String :=
  Text.unlines ((Text.lines text).map fun l => if l == "" then l else indentation n ++ l)

/-- Every line of a text moved right by `n` steps, if they can be made. -/
def indentBlock? (n : Int) (text : String) : Except Fault String := do
  Text.checkCopies indentStep.length n
  pure (indentBlock n.toNat text)

/-- The hook that declares a state, its first value already a literal. -/
def stateHook (name literal : String) : String :=
  "const [" ++ name ++ ", " ++ Text.setterName name ++ "] = useState(" ++ literal ++ ");"

/-- The call that sets a state, the value already a literal. -/
def setterCall (state literal : String) : String :=
  Text.setterName state ++ "(" ++ literal ++ ");"

/-- A function of the page with these statements as its body. -/
def arrowFunction (name params : String) (statements : List String) : String :=
  let body := Text.unlines (statements.map (indentBlock 1))
  "const " ++ name ++ " = (" ++ params ++ ") => " ++
    (if body == "" then "\x7b\x7d;" else "\x7b\n" ++ body ++ "\n\x7d;")

/-- A function of the page given by its source; blanks around it and semicolons at its end go. -/
def sourceFunction (name source : String) : String :=
  let body := Text.dropEndWhile (· == ';') (Text.trim source).toList
  "const " ++ name ++ " = " ++ String.ofList body ++ ";"

/-- The effect that loads rows once and hands them to a setter. -/
def fetchEffect (url setter : String) : String :=
  Text.unlines [
    "useEffect(() => \x7b",
    "  fetch(" ++ stringLiteral url ++ ")",
    "    .then((response) => response.json())",
    "    .then((data) => " ++ setter ++ "(data))",
    "    .catch((error) => console.error(error));",
    "\x7d, []);"]

/-- One binding between the braces of an import line. -/
def importSpecifier (exportName localName : String) : String :=
  if exportName == localName then exportName else exportName ++ " as " ++ localName

/-- An import line; without any binding it only loads its source. -/
def importLine (source : String) (main : Option String) (named : List (String × String)) :
    String :=
  let defaults := match main with
    | some d => if d == "" then [] else [d]
    | none => []
  let braces :=
    if named.isEmpty then []
    else
      let specifiers := named.map fun n => importSpecifier n.1 n.2
      ["\x7b " ++ String.intercalate ", " specifiers ++ " \x7d"]
  match defaults ++ braces with
  | [] => "import " ++ stringLiteral source ++ ";"
  | specifiers =>
    "import " ++ String.intercalate ", " specifiers ++ " from " ++ stringLiteral source ++ ";"

/-- A function component that returns the markup after its sections of statements. -/
def functionComponent (name : String) (sections : List (List String)) (markup : String) : String :=
  let blocks := (sections.filter (!·.isEmpty)).map fun statements =>
    String.intercalate "\n\n" (statements.map (indentBlock 1))
  let returned := if markup == "" then indentation 2 ++ "null" else indentBlock 2 markup
  let body := String.intercalate "\n\n"
    (blocks ++ [indentStep ++ "return (\n" ++ returned ++ "\n" ++ indentStep ++ ");"])
  "const " ++ name ++ ": React.FC = () => \x7b\n" ++ body ++ "\n\x7d;\n\nexport default " ++ name ++
    ";\n"

end Pagesmith.Script
