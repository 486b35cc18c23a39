import Pagesmith.Fault
import Pagesmith.Number.Shortest
import Pagesmith.Text.Quoted
import Pagesmith.Value.Basic

/-!
The text of a dynamic value in a message or a name: a text stands for itself, everything else is
shown the way it would be written down, with texts in quotes. A whole number has a text only while it needs no more
than `digitLimit` digits, so a value has one only if that holds of every whole number in it. `text?` and `shown?` are
`text` and `shown` for the values that can be written down, however deep they are; `textWithin?` and `shownWithin?`
fail as well where too many values lie one inside the other.
-/

namespace Pagesmith.Value

/-- The spelling of numbers that are not finite, in messages. -/
def messageNumbers : Binary64.Spelling := ⟨"nan", "inf"⟩

/-- The entries of a mapping, each already shown. -/
def showEntries (es : List (String × String)) : String :=
  "\x7b" ++ String.intercalate ", " (es.map fun e => Text.quoted e.1 ++ ": " ++ e.2) ++ "\x7d"

def showItems (xs : List String) : String :=
  "[" ++ String.intercalate ", " xs ++ "]"

/-- A fixed sequence, its items already shown; a single one is followed by a comma. -/
def showTuple : List String → String
  | [x] => "(" ++ x ++ ",)"
  | xs => "(" ++ String.intercalate ", " xs ++ ")"

/-- The fields of an editor node, each already shown. -/
def showFields (separator : String) (fields : List (String × String)) : String :=
  String.intercalate separator (fields.map fun f => f.1 ++ "=" ++ f.2)

mutual

/-- The value as it would be written down. A container that comes again inside itself is cut off there; `around` has
what is shown for each container around the value. -/
def shownIn (around : List String) : Value → String
  | null => "None"
  | bool b => if b then "True" else "False"
  | int n => toString n
  | float x => x.text messageNumbers
  | str s => Text.quoted s
  | torn t => t.letters.quoted
  | list xs => showItems (shownItems ("[...]" :: around) xs)
  | dict es => showEntries (shownEntries ("\x7b...\x7d" :: around) es)
  | tuple xs => showTuple (shownItems ("(...)" :: around) xs)
  | bytes bs => Text.quotedOctets bs
  | function => "<built-in function len>"
  | node n => "SchemaNode(" ++ showFields ", " (shownNode n) ++ ")"
  | back level => around.getD level ""
  | foreign _ shown _ => shown

def shownItems (around : List String) : List Value → List String
  | [] => []
  | x :: r => shownIn around x :: shownItems around r

def shownEntries (around : List String) : List (String × Value) → List (String × String)
  | [] => []
  | (k, v) :: r => (k, shownIn around v) :: shownEntries around r

def shownProps : List (String × EditorProp) → List (String × String)
  | [] => []
  | (k, .mk v _) :: r => (k, shownIn [] v) :: shownProps r

def shownNode : EditorNode → List (String × String)
  | .mk id name props children styles extra =>
    [("id", shownIn [] id), ("name", Text.quoted name), ("props", showEntries (shownProps props)),
      ("children", match children with
        | none => "None"
        | some cs => showItems (shownNodes cs)),
      ("styles", match styles with
        | none => "None"
        | some ss => showEntries (shownEntries [] ss))] ++ shownEntries [] extra

def shownNodes : List EditorNode → List String
  | [] => []
  | n :: r => ("SchemaNode(" ++ showFields ", " (shownNode n) ++ ")") :: shownNodes r

end

/-- The value as it would be written down. -/
def shown (v : Value) : String := shownIn [] v

/-- The text of a value: a textual value itself, and any other as it would be written down. -/
def text : Value → String
  | str s => s
  | torn t => t.letters.text
  | node n => showFields " " (shownNode n)
  | foreign _ _ text => text
  | v => shown v

mutual

/-- A value holds a whole number with more digits than a text may have. -/
def holdsLongNumber : Value → Bool
  | int n => isLongNumber n
  | list xs | tuple xs => itemsHoldLongNumber xs
  | dict es => entriesHoldLongNumber es
  | node n => nodeHoldsLongNumber n
  | null | bool _ | float _ | str _ | torn _ | bytes _ | function | back _ | foreign .. => false

/-- An item of a sequence holds a whole number with more digits than a text may have. -/
def itemsHoldLongNumber : List Value → Bool
  | [] => false
  | x :: r => holdsLongNumber x || itemsHoldLongNumber r

/-- An entry of a mapping holds a whole number with more digits than a text may have. -/
def entriesHoldLongNumber : List (String × Value) → Bool
  | [] => false
  | (_, x) :: r => holdsLongNumber x || entriesHoldLongNumber r

/-- A property of an editor node holds a whole number with more digits than a text may have. -/
def propsHoldLongNumber : List (String × EditorProp) → Bool
  | [] => false
  | (_, .mk x _) :: r => holdsLongNumber x || propsHoldLongNumber r

/-- A field of an editor node holds a whole number with more digits than a text may have. -/
def nodeHoldsLongNumber : EditorNode → Bool
  | .mk id _ props children styles extra =>
    holdsLongNumber id || propsHoldLongNumber props ||
      (match children with
        | none => false
        | some ns => nodesHoldLongNumber ns) ||
      (match styles with
        | none => false
        | some es => entriesHoldLongNumber es) || entriesHoldLongNumber extra

/-- One of several editor nodes holds a whole number with more digits than a text may have. -/
def nodesHoldLongNumber : List EditorNode → Bool
  | [] => false
  | n :: r => nodeHoldsLongNumber n || nodesHoldLongNumber r

end

/-- The text of a value, if it can be written down. -/
def text? (v : Value) : Except Fault String :=
  if v.holdsLongNumber then .error .longNumber else .ok v.text

/-- A value as it would be written down, if that can be done. -/
def shown? (v : Value) : Except Fault String :=
  if v.holdsLongNumber then .error .longNumber else .ok v.shown

/-- What keeps a value from being written down. -/
inductive Hindrance where
  /-- A value lies too deep. -/
  | deep
  /-- A whole number has more digits than a text may have. -/
  | long
deriving DecidableEq

def Hindrance.fault : Hindrance → Fault
  | deep => .shownTooDeep
  | long => .longNumber

mutual

/-- What comes first of all that keeps a value from being written down, if only so many values may lie one inside the
other. How deep something lies inside a checked node does not count. -/
def hindrance? (room : Nat) : Value → Option Hindrance
  | int n => if room = 0 then some .deep else if isLongNumber n then some .long else none
  | list xs | tuple xs => if room = 0 then some .deep else itemsHindrance? (room - 1) xs
  | dict es => if room = 0 then some .deep else entriesHindrance? (room - 1) es
  | node n => if room = 0 then some .deep else if nodeHoldsLongNumber n then some .long else none
  | null | bool _ | float _ | str _ | torn _ | bytes _ | function | back _ | foreign .. =>
    if room = 0 then some .deep else none

def itemsHindrance? (room : Nat) : List Value → Option Hindrance
  | [] => none
  | x :: r => (hindrance? room x).or (itemsHindrance? room r)

def entriesHindrance? (room : Nat) : List (String × Value) → Option Hindrance
  | [] => none
  | (_, x) :: r => (hindrance? room x).or (entriesHindrance? room r)

end

/-- The text of a value, if it can be written down with so much room. -/
def textWithin? (room : Nat) (v : Value) : Except Fault String :=
  match v.hindrance? room with
  | some h => .error h.fault
  | none => .ok v.text

/-- A value as it would be written down, if that can be done with so much room. -/
def shownWithin? (room : Nat) (v : Value) : Except Fault String :=
  match v.hindrance? room with
  | some h => .error h.fault
  | none => .ok v.shown

theorem text?_str (s : String) : (str s).text? = .ok s := rfl

theorem text?_short {v : Value} (short : v.holdsLongNumber = false) : v.text? = .ok v.text := by
  rw [text?, short]
  rfl

end Pagesmith.Value
