import Pagesmith.Text.Blank
import Pagesmith.Text.Part
import Pagesmith.Text.Upper

/-!
Names of generated things: identifiers of the target language, component names in Pascal case,
style properties in kebab case, page slugs and package names. Every such name is ASCII, whatever
the text it is made from.
-/

namespace Pagesmith.Text

/-- A character an identifier may start with. -/
def isNameStart (c : Char) : Bool :=
  c.isAlpha || c == '_' || c == '$'

/-- A character an identifier may hold. -/
def isNameChar (c : Char) : Bool :=
  c.isAlphanum || c == '_' || c == '$'

/-- Identifier characters up to the end of the text or to a line feed that ends it. -/
def isNameTail : List Char → Bool
  | [] => true
  | ['\n'] => true
  | c :: r => isNameChar c && isNameTail r

/-- The text reads as an identifier; one line feed at its end is let through. -/
def isIdentifier (s : String) : Bool :=
  match s.toList with
  | [] => false
  | c :: r => isNameStart c && isNameTail r

/-- Identifier characters are kept and all others become underscores. -/
def nameChars (cs : List Char) : List Char :=
  cs.map fun c => if isNameChar c then c else '_'

/-- An identifier made from any text; it neither is empty nor starts with a digit. -/
def toIdentifier (s : String) : String :=
  match nameChars s.toList with
  | [] => "_"
  | c :: r => String.ofList (if c.isDigit then '_' :: c :: r else c :: r)

/-- ASCII letters and digits only, each run of them starting with a capital. -/
def capitalRuns : (atStart : Bool) → List Char → List Char
  | _, [] => []
  | atStart, c :: r =>
    if c.isAlphanum then (if atStart then c.toUpper else c) :: capitalRuns false r
    else capitalRuns true r

/-- The component name of a page: `user-list` gives `UserList`, a text without letters and digits
gives `Index`, and a leading digit is put behind `Page`. -/
def pascalCase (s : String) : String :=
  match capitalRuns true s.toList with
  | [] => "Index"
  | c :: r => if c.isDigit then "Page" ++ String.ofList (c :: r) else String.ofList (c :: r)

/-- The name of the function that sets a state. -/
def setterName (state : String) : String :=
  "set" ++ upperFirst state

/-- A style property in kebab case; custom properties keep their spelling. -/
def kebabCase (s : String) : String :=
  match s.toList with
  | '-' :: '-' :: _ => s
  | cs => String.ofList (cs.flatMap fun c => if c.isUpper then ['-', c.toLower] else [c])

/-- The lower-case form of a character, exact where the form has an ASCII letter. The capital
dotted I and the Kelvin sign are the two such characters outside ASCII. -/
def lowerAscii (c : Char) : List Char :=
  if c.toNat == 0x130 then ['i', Char.ofNat 0x307]
  else if c.toNat == 0x212a then ['k']
  else [c.toLower]

/-- A text in lower case, exact in its ASCII letters. -/
def lower (s : String) : String :=
  String.ofList (s.toList.flatMap lowerAscii)

/-- Each run of characters outside `keep` becomes one hyphen. -/
def hyphenate (keep : Char → Bool) : (inRun : Bool) → List Char → List Char
  | _, [] => []
  | inRun, c :: r =>
    if keep c then c :: hyphenate keep false r
    else if inRun then hyphenate keep true r
    else '-' :: hyphenate keep true r

/-- Lower-case ASCII letters and digits. -/
def isSlugChar (c : Char) : Bool := c.isLower || c.isDigit

/-- The characters of a text that may stand in a route, hyphens between them. -/
def slug (s : String) : String :=
  String.ofList (dropBothWhile (· == '-') (hyphenate isSlugChar false (s.toList.flatMap lowerAscii)))

def isPackageChar (c : Char) : Bool :=
  isSlugChar c || c == '.' || c == '_' || c == '-'

/-- The package name of a project, and `pagegen-app` if nothing of the project's name is left. -/
def packageName (projectName : String) : String :=
  let cs := hyphenate isPackageChar false (projectName.toList.flatMap lowerAscii)
  match dropBothWhile (fun c => c == '-' || c == '.' || c == '_') cs with
  | [] => "pagegen-app"
  | cs => String.ofList cs

/-- The name of the function that handles an event: `onClick` on node `2` gives `handleClick_2`. -/
def handlerName (prop nodeId : String) : String :=
  let event := match prop.toList with
    | 'o' :: 'n' :: c :: r => if isUpperChar c then String.ofList (c :: r) else upperFirst prop
    | _ => upperFirst prop
  toIdentifier ("handle" ++ event ++ "_" ++ nodeId)

/-- The name of the page method that stands for a component method on a node. -/
def methodName (method nodeId : String) : String :=
  let base := if hasStart "handle" method then method else "handle" ++ upperFirst method
  toIdentifier (base ++ "_" ++ nodeId)

/-- The name of the page state that drives a property of a node. -/
def stateName (prop nodeId : String) : String :=
  toIdentifier (prop ++ "_" ++ nodeId)

def className (nodeId : String) : String :=
  toIdentifier ("node_" ++ nodeId)

end Pagesmith.Text
