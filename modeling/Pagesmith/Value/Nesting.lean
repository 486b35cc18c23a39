import Pagesmith.Value.Reader

/-!
JSON documents whose lists and objects lie only so deep. A document is read up to the first
bracket that lies too deep; it is refused for its depth only if nothing before that bracket is
wrong, and a value may stand where the bracket stands.
-/

namespace Pagesmith.Value

/-- How many lists and objects of a document can lie one inside the other. -/
def nestingLimit : Nat := 988

/-- The first bracket with `limit` or more others open around it: whether it opens a list, and the
number of characters left from it on. Brackets in strings do not count. -/
def tooDeep? (limit : Nat) : (depth : Nat) → (inString : Bool) → List Char → Option (Bool × Nat)
  | _, _, [] => none
  | depth, true, '\\' :: _ :: r => tooDeep? limit depth true r
  | depth, true, c :: r => tooDeep? limit depth (c != '"') r
  | depth, false, c :: r =>
    if c == '"' then tooDeep? limit depth true r
    else if c == '[' || c == '\x7b' then
      if limit ≤ depth then some (c == '[', r.length + 1) else tooDeep? limit (depth + 1) false r
    else if c == ']' || c == '\x7d' then tooDeep? limit (depth - 1) false r
    else tooDeep? limit depth false r

/-- The start of a document is right so far, and a value has to come next. -/
def expectsValue (cs : List Char) : Bool :=
  match Reader.document (some digitLimit) cs with
  | .error (.at what 0) => what == "Expecting value"
  | _ => false

/-- The value of a JSON document, or why it has none. -/
def ofDocument? (s : String) : Except Fault Value :=
  let whole := (ofJson? s).mapError Fault.notJson
  match tooDeep? nestingLimit 0 false s.toList with
  | none => whole
  | some (isList, left) =>
    if expectsValue (s.toList.take (s.toList.length - left)) then .error (.jsonTooDeep isList)
    else whole

end Pagesmith.Value
