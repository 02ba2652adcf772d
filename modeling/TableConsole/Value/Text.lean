import TableConsole.Number.Written
import TableConsole.Value.Basic

/-! # Cell text

The bare text of a value as it stands in a table cell.
-/

namespace TableConsole

set_option autoImplicit false

def binaryText (b : Bool) : String :=
  if b then "1b" else "0b"

def Atom.cellText : Atom → String
  | .number x => Number.display x
  | .text s => s
  | .boolean b => binaryText b
  | .date d => d.text
  | .symbol s => s

namespace Value

mutual

/-- The items of a list are separated by spaces; a table shows its column names only. -/
def cellText : Value → String
  | .atom a => a.cellText
  | .list items => " ".intercalate (cellTexts items)
  | .table t => "+[" ++ " ".intercalate t.columns ++ "]"
  | .function source => source

def cellTexts : List Value → List String
  | [] => []
  | v :: vs => v.cellText :: cellTexts vs

end

end Value

end TableConsole
