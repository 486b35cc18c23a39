import Pagesmith.Script.Literal
import Pagesmith.Text.Blank

/-!
Markup trees: elements with attributes, plain text and braced code. A literal value becomes a
quoted attribute or plain text only if it holds no character with a meaning there, and braced code
otherwise.
-/

namespace Pagesmith

/-- What an attribute says after its name. -/
inductive AttributeBody where
  | bare
  | quoted (text : String)
  | code (source : String)
deriving DecidableEq

/-- An attribute of an element. -/
structure Attribute where
  name : String
  body : AttributeBody
deriving DecidableEq

/-- The text of an attribute. -/
def Attribute.render (a : Attribute) : String :=
  match a.body with
  | .bare => a.name
  | .quoted t => a.name ++ "=\"" ++ t ++ "\""
  | .code c => a.name ++ "=\x7b" ++ c ++ "\x7d"

/-- A markup tree. -/
inductive Markup where
  | element (tag : String) (attributes : List Attribute) (children : List Markup)
  | text (t : String)
  | code (source : String)
deriving Inhabited

namespace Markup

/-- A character that may not stand in a quoted attribute. -/
def endsQuoted (c : Char) : Bool :=
  c == '"' || c == '&' || c == '\n' || c == '\r' || c == '\x7b' || c == '\x7d' || c == '<' || c == '>'

/-- A character that may not stand in plain text. -/
def endsText (c : Char) : Bool :=
  c == '\x7b' || c == '\x7d' || c == '<' || c == '>' || c == '&' || c == '\n' || c == '\r'

def textAttribute (name s : String) : Attribute :=
  if s.toList.any endsQuoted then ⟨name, .code (Script.stringLiteral s)⟩ else ⟨name, .quoted s⟩

def literalAttribute (name : String) : Value → Job Attribute
  | .str s => pure (textAttribute name s)
  | v => return ⟨name, .code (← Script.literal v)⟩

/-- A text as a child; a text with blanks at an end has to be code. -/
def textChild (s : String) : Markup :=
  if Text.trim s == s && !s.toList.any endsText then text s else code (Script.stringLiteral s)

/-- A literal value as a child; `null` and the empty text give none. -/
def literalChild : Value → Job (Option Markup)
  | .null => pure none
  | .str s => pure (if s == "" then none else some (textChild s))
  | v => return some (code (← Script.literal v))

end Markup

end Pagesmith
