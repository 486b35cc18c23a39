import Pagesmith.Toml.Stop
import Pagesmith.Value.Basic

/-!
Dates and times of a TOML document. A moment is a day, a time of day, or both, and then perhaps with
the distance from universal time. Nothing is reckoned with moments; they are only shown.
-/

namespace Pagesmith.Toml

/-- A day of the calendar. -/
structure Day where
  year : Nat
  month : Nat
  day : Nat
deriving DecidableEq

/-- A time of day. -/
structure Clock where
  hour : Nat
  minute : Nat
  second : Nat
  micro : Nat
deriving DecidableEq

/-- A moment; the distance from universal time is in minutes. -/
inductive Moment where
  | day (d : Day)
  | clock (c : Clock)
  | both (d : Day) (c : Clock) (distance : Option Int)
deriving DecidableEq

/-- A number with at least `width` digits. -/
def padded (width n : Nat) : String :=
  let digits := (toString n).toList
  String.ofList (List.replicate (width - digits.length) '0' ++ digits)

/-- Numbers as arguments. -/
def arguments (ns : List Nat) : String := String.intercalate ", " (ns.map toString)

namespace Day

/-- The year has one more day. -/
def isLeapYear (year : Nat) : Bool := year % 4 == 0 && (year % 100 != 0 || year % 400 == 0)

def daysIn (year month : Nat) : Nat :=
  if month == 2 then (if isLeapYear year then 29 else 28)
  else if month == 4 || month == 6 || month == 9 || month == 11 then 30
  else 31

/-- The calendar has the day. -/
def isValid (d : Day) : Bool := 1 ≤ d.year && d.day ≤ daysIn d.year d.month

def text (d : Day) : String :=
  padded 4 d.year ++ "-" ++ padded 2 d.month ++ "-" ++ padded 2 d.day

def numbers (d : Day) : List Nat := [d.year, d.month, d.day]

end Day

namespace Clock

/-- The text of a time. -/
def text (c : Clock) : String :=
  padded 2 c.hour ++ ":" ++ padded 2 c.minute ++ ":" ++ padded 2 c.second ++
    (if c.micro == 0 then "" else "." ++ padded 6 c.micro)

/-- The numbers of a time, without those at the end that are zero. -/
def numbers (c : Clock) : List Nat :=
  [c.hour, c.minute] ++
    (if c.micro != 0 then [c.second, c.micro] else if c.second != 0 then [c.second] else [])

end Clock

namespace Moment

/-- The distance from universal time as a text. -/
def distanceText (distance : Int) : String :=
  (if distance < 0 then "-" else "+") ++ padded 2 (distance.natAbs / 60) ++ ":" ++
    padded 2 (distance.natAbs % 60)

/-- The distance from universal time, written down; a negative one as what is left of a day. -/
def distanceShown (distance : Int) : String :=
  if distance == 0 then "datetime.timezone.utc"
  else
    let span :=
      if distance < 0 then "days=-1, seconds=" ++ toString ((1440 + distance) * 60)
      else "seconds=" ++ toString (distance * 60)
    "datetime.timezone(datetime.timedelta(" ++ span ++ "))"

def typeName : Moment → String
  | day _ => "date"
  | clock _ => "time"
  | both .. => "datetime"

def text : Moment → String
  | day d => d.text
  | clock c => c.text
  | both d c distance => d.text ++ " " ++ c.text ++ (distance.map distanceText).getD ""

/-- A moment as it would be written down. -/
def shown : Moment → String
  | day d => "datetime.date(" ++ arguments d.numbers ++ ")"
  | clock c => "datetime.time(" ++ arguments c.numbers ++ ")"
  | both d c distance =>
    "datetime.datetime(" ++ arguments (d.numbers ++ c.numbers) ++
      (match distance with
      | none => ""
      | some n => ", tzinfo=" ++ distanceShown n) ++ ")"

def value (m : Moment) : Value := .foreign m.typeName m.shown m.text

/-- A number of `width` digits between `low` and `high`. -/
def number? (width low high : Nat) (cs : List Char) : Option (Nat × List Char) :=
  let ds := cs.take width
  let n := ds.foldl (fun n c => n * 10 + (c.toNat - '0'.toNat)) 0
  if ds.length == width && ds.all Char.isDigit && low ≤ n && n ≤ high then some (n, cs.drop width)
  else none

def behind? (mark : Char) (low high : Nat) : List Char → Option (Nat × List Char)
  | c :: r => if c == mark then number? 2 low high r else none
  | [] => none

/-- The millionths of a second, from the digits behind a point; further digits do not count. -/
def micro : List Char → Nat × List Char
  | '.' :: r =>
    match r.takeWhile Char.isDigit with
    | [] => (0, '.' :: r)
    | ds =>
      let six := (ds ++ List.replicate 6 '0').take 6
      (six.foldl (fun n c => n * 10 + (c.toNat - '0'.toNat)) 0, r.drop ds.length)
  | cs => (0, cs)

/-- A time of day. -/
def clock? (cs : List Char) : Option (Clock × List Char) := do
  let (hour, r) ← number? 2 0 23 cs
  let (minute, r) ← behind? ':' 0 59 r
  let (second, r) ← behind? ':' 0 59 r
  let (micro, r) := micro r
  pure (⟨hour, minute, second, micro⟩, r)

/-- A day, which the calendar need not have. -/
def day? (cs : List Char) : Option (Day × List Char) := do
  let (year, r) ← number? 4 0 9999 cs
  let (month, r) ← behind? '-' 1 12 r
  let (number, r) ← behind? '-' 1 31 r
  pure (⟨year, month, number⟩, r)

/-- Hours and minutes of a distance from universal time. -/
def distance? (cs : List Char) : Option (Int × List Char) := do
  let (hour, r) ← number? 2 0 23 cs
  let (minute, r) ← behind? ':' 0 59 r
  pure (hour * 60 + minute, r)

/-- The distance from universal time, if one is given. -/
def distance (cs : List Char) : Option Int × List Char :=
  match cs with
  | c :: r =>
    if c == 'Z' || c == 'z' then (some 0, r)
    else if c == '+' || c == '-' then
      match distance? r with
      | some (n, r) => (some (if c == '-' then -n else n), r)
      | none => (none, cs)
    else (none, cs)
  | [] => (none, cs)

/-- The time that may follow a day. -/
def timeBehind? : List Char → Option ((Clock × Option Int) × List Char)
  | c :: r =>
    if c == 'T' || c == 't' || c == ' ' then do
      let (time, r) ← clock? r
      let (distance, r) := distance r
      pure ((time, distance), r)
    else none
  | [] => none

/-- A moment, if one starts here. -/
def ofStart? (cs : List Char) : Option (Except Stop (Moment × List Char)) :=
  match day? cs with
  | some (d, r) =>
    some (
      if !d.isValid then .error (.at "Invalid date or datetime" cs.length)
      else match timeBehind? r with
        | some ((c, distance), r) => .ok (.both d c distance, r)
        | none => .ok (.day d, r))
  | none => (clock? cs).map fun (c, r) => .ok (.clock c, r)

end Moment

end Pagesmith.Toml
