import Pagesmith.Fault
import Pagesmith.Table
import Pagesmith.Value.Text

/-!
Templates: texts with holes for named values, and parts that are repeated for each item of a list.
A hole without a value is a fault.
-/

namespace Pagesmith.Scaffold

inductive Part where
  | text (s : String)
  /-- The text of a value, or of a member of it. -/
  | hole (name : String) (member : Option String)
  /-- The text of a value, written so that it is no markup. -/
  | escaped (name : String)
  /-- The parts of the body, once for each item of a list, which has a name of its own there. -/
  | each (item list : String) (body : List Part)

/-- A text with holes. -/
abbrev Template := List Part

/-- One character in a text that is no markup. -/
def escapeChar (c : Char) : List Char :=
  if c == '&' then "&amp;".toList
  else if c == '<' then "&lt;".toList
  else if c == '>' then "&gt;".toList
  else if c == '\'' then "&#39;".toList
  else if c == '"' then "&#34;".toList
  else [c]

/-- A text written so that it is no markup. -/
def escapeText (s : String) : String :=
  String.ofList (s.toList.flatMap escapeChar)

/-- The names that have values. -/
abbrev Scope := List (String × Value)

def Scope.find (scope : Scope) (name : String) : Except Fault Value :=
  match scope.lookup name with
  | some v => .ok v
  | none => .error (.undefinedName name)

/-- The kind of a value, as a fault gives it. -/
def kindText (v : Value) : String :=
  match v with
  | .null => "None"
  | .node _ => "pagegen.ir.schema.SchemaNode object"
  | v => v.typeName ++ " object"

/-- What a value has for members: the entries of a mapping, the fields of an editor node. -/
def membersOf (v : Value) : List (String × Value) :=
  match v with
  | .node n => n.fields
  | v => v.entries?.getD []

def member (v : Value) (name : String) : Except Fault Value :=
  match (membersOf v).lookup name with
  | some w => .ok w
  | none => .error (.undefinedMember (kindText v) name)

/-- What a value has for items: those of a sequence, the keys of a mapping, the characters of a
text, the numbers of octets, the fields of an editor node with their names. -/
def itemsOf (v : Value) : Except Fault (List Value) :=
  match v with
  | .list xs => .ok (Value.itemsOf .list xs)
  | .tuple xs => .ok (Value.itemsOf .tuple xs)
  | .dict es => .ok (es.map fun e => .str e.1)
  | .str s => .ok (s.toList.map fun c => .str (String.singleton c))
  | .torn t => .ok (t.letters.map fun x => .str (String.singleton x.toChar))
  | .bytes bs => .ok (bs.map fun b => .int b.toNat)
  | .node n => .ok (n.fields.map fun f => .tuple [.str f.1, f.2])
  | _ => .error (.notIterable v.typeName)

/-- The texts of the items, one after the other. -/
def forEach (f : Value → Except Fault String) : List Value → Except Fault String
  | [] => .ok ""
  | v :: r => do
    let first ← f v
    let rest ← forEach f r
    pure (first ++ rest)

mutual

/-- The text of a part. -/
def Part.fill (scope : Scope) : Part → Except Fault String
  | .text s => .ok s
  | .hole name none => do
    let v ← scope.find name
    v.text?
  | .hole name (some m) => do
    let v ← scope.find name
    let w ← member v m
    w.text?
  | .escaped name => do
    let v ← scope.find name
    return escapeText (← v.text?)
  | .each item list body => do
    let v ← scope.find list
    forEach (fun x => Part.fillAll (Table.insert item x scope) body) (← itemsOf v)

/-- The texts of parts, one after the other. -/
def Part.fillAll (scope : Scope) : List Part → Except Fault String
  | [] => .ok ""
  | p :: r => do
    let first ← Part.fill scope p
    let rest ← Part.fillAll scope r
    pure (first ++ rest)

end

/-- The text of a template over named values. -/
def Template.fill (t : Template) (scope : Scope) : Except Fault String :=
  Part.fillAll scope t

end Pagesmith.Scaffold
