import Pagesmith.Table
import Pagesmith.Text.Quoted
import Pagesmith.Value.Basic

/-!
The names of a document while it is read: the tables built so far, and which of them are closed.
A value on one line is closed for good, with everything below it; a table that has been opened by
a heading cannot be opened by another one; the tables on the way of a dotted key cannot be opened
by a heading later.
-/

namespace Pagesmith.Toml

/-- A table being built. -/
abbrev Entries := List (String × Value)

/-- What has been built, and what is closed. -/
structure Names where
  table : Entries
  /-- Tables that no heading may open. -/
  opened : List (List String)
  /-- Values that nothing may be added to, with everything below them. -/
  closed : List (List String)
  /-- Tables that no heading may open after the next one. -/
  pending : List (List String)

/-- The segments of a key, as a fault shows them. -/
def keyText (key : List String) : String :=
  match key with
  | [k] => "(" ++ Text.quoted k ++ ",)"
  | ks => "(" ++ String.intercalate ", " (ks.map Text.quoted) ++ ")"

/-- There is something in the way of a table. -/
def overwriting : String := "Cannot overwrite a value"

/-- The last item of a list, changed. -/
def changeLast (f : Value → Except String Value) : List Value → Except String (List Value)
  | [] => .error overwriting
  | [x] => (f x).map ([·])
  | x :: y :: r => (changeLast f (y :: r)).map (x :: ·)

/-- Change the table under a key, which is made if it is not there. A list on the way stands for
its last item, if `intoLists`. -/
def changeTable (intoLists : Bool) (f : Entries → Except String Entries) :
    (key : List String) → Entries → Except String Entries
  | [], es => f es
  | k :: r, es => do
    let inside : Value → Except String Value
      | .dict es => (changeTable intoLists f r es).map .dict
      | _ => .error overwriting
    let changed ← match es.lookup k with
      | none => inside (.dict [])
      | some (.list xs) =>
        if intoLists then (changeLast inside xs).map Value.list else .error overwriting
      | some v => inside v
    pure (Table.insert k changed es)

/-- Give a new key a value. -/
def addEntry (taken : String) (k : String) (v : Value) (es : Entries) : Except String Entries :=
  if Table.has k es then .error taken else .ok (Table.insert k v es)

/-- Add an empty table to the list under a key, which is made if it is not there. -/
def appendTable (k : String) (es : Entries) : Except String Entries :=
  match es.lookup k with
  | none => .ok (Table.insert k (.list [.dict []]) es)
  | some (.list xs) => .ok (Table.insert k (.list (xs ++ [.dict []])) es)
  | some _ => .error overwriting

def isBuilt : Value → Bool
  | .list _ | .dict _ => true
  | _ => false

/-- The shorter beginnings of a key, each under the heading. -/
def beginnings (header key : List String) : List (List String) :=
  (List.range (key.length - 1)).map fun i => header ++ key.take (i + 1)

/-- Fail unless there is no reason to. -/
def refuse (reason : Bool) (what : String) : Except String Unit :=
  if reason then .error what else .ok ()

namespace Names

def empty : Names := ⟨[], [], [], []⟩

/-- A key is closed, or something above it is. -/
def isClosed (n : Names) (key : List String) : Bool :=
  n.closed.any fun k => k.isPrefixOf key

/-- A heading may not open the table. -/
def isOpened (n : Names) (key : List String) : Bool := n.opened.contains key

/-- Add a pair to a table on one line. -/
def addInline (n : Names) (key : List String) (v : Value) : Except String Names := do
  refuse (n.isClosed key) ("Cannot mutate immutable namespace " ++ keyText key)
  let last := key.getLastD ""
  let table ← changeTable false
    (addEntry ("Duplicate inline table key " ++ Text.quoted last) last v) key.dropLast n.table
  pure { n with table, closed := if isBuilt v then key :: n.closed else n.closed }

/-- Add a pair under a heading. -/
def add (n : Names) (header key : List String) (v : Value) : Except String Names := do
  let above := beginnings header key
  match above.find? n.isOpened with
  | some k => throw ("Cannot redefine namespace " ++ keyText k)
  | none => pure ()
  let parent := header ++ key.dropLast
  refuse (!parent.isEmpty && n.isClosed parent)
    ("Cannot mutate immutable namespace " ++ keyText parent)
  let table ← changeTable true (addEntry overwriting (key.getLastD "") v) parent n.table
  pure { n with table, pending := above ++ n.pending,
                closed := if isBuilt v then (header ++ key) :: n.closed else n.closed }

/-- A heading comes: what was pending is in force from here on. -/
def settle (n : Names) : Names :=
  { n with opened := n.pending ++ n.opened, pending := [] }

def openTable (n : Names) (key : List String) : Except String Names := do
  refuse (n.isOpened key || n.isClosed key) ("Cannot declare " ++ keyText key ++ " twice")
  let table ← changeTable true .ok key n.table
  pure { n with table, opened := key :: n.opened }

/-- Open a new table in a list by a heading. What was said of the table before it is void. -/
def openItem (n : Names) (key : List String) : Except String Names := do
  refuse (n.isClosed key) ("Cannot mutate immutable namespace " ++ keyText key)
  let keep := fun k : List String => !key.isPrefixOf k
  let table ← changeTable true (appendTable (key.getLastD "")) key.dropLast n.table
  pure { n with table, opened := key :: n.opened.filter keep, closed := n.closed.filter keep }

end Names

end Pagesmith.Toml
