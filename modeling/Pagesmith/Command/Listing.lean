import Pagesmith.Fault
import Pagesmith.Text.Blank
import Pagesmith.Text.Part

/-!
Listings: rows of cells in columns. A column is as wide as its widest cell, two spaces stand
between columns, and the first row says how many there are.
-/

namespace Pagesmith.Command

/-- The space between columns. -/
def columnGap : String := "  "

/-- The width of the column with a number. Every row must have a cell there. -/
def columnWidth (column : Nat) : List (List String) → Except Fault Nat
  | [] => .ok 0
  | row :: r => match row[column]? with
    | none => .error .shortRow
    | some cell => (columnWidth column r).map (max cell.length)

def columnWidths (rows : List (List String)) : List Nat → Except Fault (List Nat)
  | [] => .ok []
  | column :: r => do
    let w ← columnWidth column rows
    let rest ← columnWidths rows r
    pure (w :: rest)

def rowText (widths : List Nat) (row : List String) : String :=
  Text.trimEnd (String.intercalate columnGap (List.zipWith Text.padEnd widths row))

/-- The lines of a listing. -/
def listing (rows : List (List String)) : Except Fault (List String) :=
  match rows with
  | [] => .ok []
  | first :: _ => do
    let widths ← columnWidths rows (List.range first.length)
    pure (rows.map (rowText widths))

end Pagesmith.Command
