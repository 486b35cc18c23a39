import Pagesmith.Text.Quoted
import Pagesmith.Value.Basic

/-!
Everything that can go wrong, by cause, and what is reported about it: the wording, a code, and a
hint where there is one. The wording of every fault is here and nowhere else.
-/

namespace Pagesmith

/-- What a caller is told about a fault. -/
structure Report where
  message : String
  code : Option String
  hint : Option String
deriving DecidableEq

/-- The report on one line: the message, its code in parentheses, and the hint. Empty parts are
left out. -/
def Report.line (r : Report) : String :=
  let coded := match r.code with
    | some c => if c == "" then r.message else r.message ++ " (" ++ c ++ ")"
    | none => r.message
  let hinted := match r.hint with
    | some h => if h == "" then "" else "Hint: " ++ h
    | none => ""
  String.intercalate " " ([coded, hinted].filter (· != ""))

def ShapeFault.message : ShapeFault → String
  | missingName => "Field required"
  | notText => "Input should be a valid string"
  | notUnicode =>
    "Input should be a valid string, unable to parse raw data as a unicode string"
  | notMapping => "Input should be a valid dictionary"
  | notList => "Input should be a valid list"
  | notNode => "Input should be a valid dictionary or instance of SchemaNode"
  | tooDeep => "Recursion error - cyclic reference detected"

/-- Why a text is no JSON document, and where; positions count characters from zero. -/
inductive SyntaxFault where
  | at (what : String) (line column position : Nat)
  | tooManyDigits (count : Nat)
deriving DecidableEq

/-- The wording for a whole number with too many digits. -/
def digitLimitText (count : Nat) : String :=
  "Exceeds the limit (4300 digits) for integer string conversion: value has " ++
    toString count ++ " digits; use sys.set_int_max_str_digits() to increase the limit"

/-- The wording of a fault in a JSON document. -/
def SyntaxFault.message : SyntaxFault → String
  | .at what line column position =>
    what ++ ": line " ++ toString line ++ " column " ++ toString column ++ " (char " ++
      toString position ++ ")"
  | .tooManyDigits count => digitLimitText count

/-- The causes of failure. Texts that a cause carries are already in the form that is shown. -/
inductive Fault where
  /-- The schema is a value of a type that is no list of nodes. -/
  | schemaType (typeName : String)
  /-- A top-level node of the schema has the wrong shape. -/
  | schemaNode (index : Nat) (cause : ShapeFault)
  /-- A schema file cannot be read. -/
  | schemaUnreadable (path reason : String)
  /-- A schema file holds no JSON. -/
  | schemaSyntax (path reason : String)
  /-- A schema file holds an object without a node list. -/
  | schemaListMissing (path : String) (keys : List String)
  /-- No stack is registered under the name. -/
  | unknownStack (name : String) (available : List String)
  /-- A hook gave up with a message of its own. -/
  | hook (message : String) (hint : Option String)
  /-- The project name is no single path segment. -/
  | projectName (name : Text.Loose)
  /-- A file lies outside the project folder. -/
  | outsideProject (path : Text.Loose)
  /-- The files cannot be written. -/
  | unwritable (root reason : String)
  /-- No way of delivery has the name. -/
  | unknownTarget (shown : String) (known : List String)
  /-- An explicitly named settings file is not there. -/
  | settingsMissing (path : String)
  /-- A settings file cannot be read. -/
  | settingsUnreadable (name reason : String)
  /-- A settings file holds no table. -/
  | settingsShape (name : String)
  | settingsSection (name typeName : String)
  /-- A formatting number is no integer. -/
  | settingsNumber (key shown : String)
  /-- A formatting number is negative. -/
  | settingsNegative (key : String) (n : Int)
  /-- A value that holds itself cannot be written. -/
  | circular
  /-- A number that is not finite cannot be copied. -/
  | notFinite
  /-- A value of this type cannot be written. -/
  | notSerialisable (typeName : String)
  /-- A text is no JSON document. -/
  | notJson (cause : SyntaxFault)
  | notText (reason : String)
  /-- A text is no TOML document, for this reason. -/
  | notToml (reason : String)
  /-- A list, or an object, of a JSON document lies inside too many others. -/
  | jsonTooDeep (isList : Bool)
  /-- An array or a table of a TOML document lies inside too many others. -/
  | tomlTooDeep
  /-- A text is no number. -/
  | notInteger (shown : String)
  /-- A text is a number with too many digits. -/
  | integerTooLong (count : Nat)
  /-- A whole number has too many digits to be written. -/
  | longNumber
  /-- A value lies inside too many others to be written. -/
  | shownTooDeep
  /-- A text has no octets, since halves of characters stand alone in it. -/
  | unencodable (cause : Text.EncodeFault)
  /-- A number is too large to count characters. -/
  | uncountable
  /-- Copies of a text have too many characters together. -/
  | tooManyCopies
  /-- A text does not fit in memory. -/
  | outOfMemory
  /-- Too many folders, one inside the other, would have to be made. -/
  | foldersTooDeep
  /-- A slot carries itself, or elements lie too deep in one another. -/
  | endlessSlot
  /-- The name of a file is too long for an archive. -/
  | longItemName
  | notNumber (typeName : String)
  | infiniteInteger
  /-- A missing number has no integer part. -/
  | nanInteger
  | notPath (typeName : String)
  /-- A path holds the character with number zero. -/
  | nulInPath
  | notKey (typeName : String)
  /-- A value of this type has no such member. -/
  | noMember (typeName member : String)
  /-- A value of this type cannot be gone through. -/
  | notIterable (typeName : String)
  | unknownFileType (name : String)
  | unknownFile (name : String)
  | unknownTemplate (name : String)
  /-- A template uses a name that has no value. -/
  | undefinedName (name : String)
  /-- A template uses a member that a value does not have. -/
  | undefinedMember (kind member : String)
  /-- A row of a listing has fewer cells than the first one. -/
  | shortRow
  /-- The disk refused an operation with this message. -/
  | disk (message : String)
  /-- A hook broke down with this message. -/
  | breakdown (message : String)
  /-- A hook refused a value with this message. -/
  | refusal (message : String)
deriving DecidableEq

namespace Fault

def hint : Fault → Option String
  | schemaType _ => some "Pass the editor's component tree as a JSON array."
  | schemaListMissing _ keys =>
    some ("Store the nodes as a top-level array or under one of: " ++
      String.intercalate ", " keys ++ ".")
  | unknownStack .. => some "Run `pagegen solutions` to list them."
  | hook _ hint => hint
  | projectName _ => some "Use a plain folder name such as 'my-app'."
  | unknownTarget _ known => some ("Choose one of: " ++ String.intercalate ", " known ++ ".")
  | settingsUnreadable .. => some "Check the file syntax."
  | _ => none

/-- The wording of a fault. -/
def message : Fault → String
  | schemaType t => "Schema must be a list of nodes, got " ++ t
  | schemaNode index cause =>
    "Schema node #" ++ toString index ++ " is invalid: " ++ cause.message
  | schemaUnreadable path reason => "Cannot read schema file " ++ path ++ ": " ++ reason
  | schemaSyntax path reason => "Schema file " ++ path ++ " is not valid JSON: " ++ reason
  | schemaListMissing path _ => "Schema file " ++ path ++ " has no node list"
  | unknownStack name available =>
    "Unsupported solution: " ++ name ++ ". Available solutions: " ++
      (if available.isEmpty then "none" else String.intercalate ", " available)
  | hook message _ => message
  | projectName name => "Invalid project name " ++ name.quoted
  | outsideProject path => "Refusing to publish file outside the project: " ++ path.quoted
  | unwritable root reason => "Failed to write project to " ++ root ++ ": " ++ reason
  | unknownTarget shown _ => "Unknown publish target " ++ shown
  | settingsMissing path => "Config file not found: " ++ path
  | settingsUnreadable name reason => "Could not read " ++ name ++ ": " ++ reason
  | settingsShape name => name ++ " must contain a table of settings"
  | settingsSection name t => "[" ++ name ++ "] must be a table, got " ++ t
  | settingsNumber key shown => "formatting." ++ key ++ " must be an integer, got " ++ shown
  | settingsNegative key n =>
    "formatting." ++ key ++ " must not be negative, got " ++ toString n
  | circular => "Circular reference detected"
  | notFinite => "Out of range float values are not JSON compliant"
  | notSerialisable t => "Object of type " ++ t ++ " is not JSON serializable"
  | notJson cause => cause.message
  | notText reason | notToml reason => reason
  | jsonTooDeep isList =>
    "maximum recursion depth exceeded while decoding a JSON " ++
      (if isList then "array" else "object") ++ " from a unicode string"
  | tomlTooDeep | endlessSlot => "maximum recursion depth exceeded"
  | notInteger shown => "invalid literal for int() with base 10: " ++ shown
  | integerTooLong count => digitLimitText count
  | longNumber =>
    "Exceeds the limit (4300 digits) for integer string conversion; " ++
      "use sys.set_int_max_str_digits() to increase the limit"
  | shownTooDeep => "maximum recursion depth exceeded while getting the repr of an object"
  | unencodable cause => cause.message
  | uncountable => "cannot fit 'int' into an index-sized integer"
  | tooManyCopies => "repeated string is too long"
  | outOfMemory => ""
  | foldersTooDeep => "maximum recursion depth exceeded while calling a Python object"
  | longItemName => "ushort format requires 0 <= number <= 65535"
  | notNumber t =>
    "int() argument must be a string, a bytes-like object or a real number, not '" ++ t ++ "'"
  | infiniteInteger => "cannot convert float infinity to integer"
  | nanInteger => "cannot convert float NaN to integer"
  | notPath t => "expected str, bytes or os.PathLike object, not " ++ t
  | nulInPath => "embedded null byte"
  | notKey t => "unhashable type: '" ++ t ++ "'"
  | noMember t member => "'" ++ t ++ "' object has no attribute '" ++ member ++ "'"
  | notIterable t => "'" ++ t ++ "' object is not iterable"
  | unknownFileType name => Text.quoted name ++ " is not a valid FileType"
  | unknownFile name => Text.quoted name
  | unknownTemplate name => name
  | undefinedName name => Text.quoted name ++ " is undefined"
  | undefinedMember kind member => Text.quoted kind ++ " has no attribute " ++ Text.quoted member
  | shortRow => "tuple index out of range"
  | disk message | breakdown message | refusal message => message

/-- The code of a fault. Faults of data and of hooks have none; they reach a caller only as the
reason of another failure. -/
def code : Fault → Option String
  | schemaType _ | schemaNode .. | schemaUnreadable .. | schemaSyntax .. | schemaListMissing .. =>
    some "SCHEMA_INVALID"
  | unknownStack .. => some "PIPELINE_FAILURE"
  | hook .. => some "PLUGIN_FAILURE"
  | projectName _ | outsideProject _ | unwritable .. | unknownTarget .. => some "PUBLISH_FAILED"
  | settingsMissing _ | settingsUnreadable .. | settingsShape _ | settingsSection ..
  | settingsNumber .. | settingsNegative .. => some "CONFIG_INVALID"
  | _ => none

/-- What a caller is told. -/
def report (f : Fault) : Report := ⟨f.message, f.code, f.hint⟩

/-- The fault is that something in a document lies too deep. -/
def isDepth : Fault → Bool
  | jsonTooDeep _ | tomlTooDeep => true
  | _ => false

/-- Faults with a code are the ones the generator foresees. -/
def isForeseen (f : Fault) : Bool := f.code.isSome

/-- A fault on one line, for whoever gave a command. -/
def line (f : Fault) : String :=
  if f.isForeseen then f.report.line else "Error: " ++ f.message

end Fault

end Pagesmith
