import TableConsole.Json.Printer
import TableConsole.Value.Basic

/-! # Values as JSON

Texts, symbols, dates and functions become strings; a table becomes an object with its columns and
its rows; numbers that JSON does not have become null.
-/

namespace TableConsole

set_option autoImplicit false

def Json.ofFloat (x : Float) : Json :=
  if x.isFinite then .number (.float x) else .null

def Atom.toJson : Atom → Json
  | .number x => .ofFloat x
  | .text s | .symbol s => .text s
  | .boolean b => .boolean b
  | .date d => .text d.text

namespace Value

mutual

def toJson : Value → Json
  | .atom a => a.toJson
  | .list items => .array (itemsToJson items)
  | .table t => tableToJson t
  | .function source => .text source

def itemsToJson : List Value → List Json
  | [] => []
  | v :: vs => v.toJson :: itemsToJson vs

def tableToJson : Table Value → Json
  | ⟨columns, rows⟩ =>
    .object [("columns", .array (columns.map .text)), ("rows", .array (rowsToJson rows))]

def rowsToJson : List (List Value) → List Json
  | [] => []
  | row :: rows => .array (itemsToJson row) :: rowsToJson rows

end

end Value

end TableConsole
