import TableConsole.Display.Line
import TableConsole.Display.Table
import TableConsole.Value.Json

/-! # Values on display

Atoms are shown as literals. A flat list shows its items with spaces between them, or without if
all are symbols; a nested list is shown as JSON. Only a table may have nothing to show, if it is too
wide.
-/

namespace TableConsole

set_option autoImplicit false

def Value.literalText : Value → String
  | .atom (.text s) => "\"" ++ s ++ "\""
  | .atom (.symbol s) => "\x60" ++ s
  | v => v.cellText

def Value.isSymbol : Value → Bool
  | .atom (.symbol _) => true
  | _ => false

def listText (items : List Value) : String :=
  if items.isEmpty then "()"
  else if items.any (!·.isAtom) then (Value.list items).toJson.toText
  else (if items.all Value.isSymbol then "" else " ").intercalate (items.map Value.literalText)

def listLine (items : List Value) : DisplayLine :=
  ⟨.value, listText items⟩

def Value.display? : Value → Option DisplayLine
  | .atom (.text s) => some ⟨.text, (Value.text s).literalText⟩
  | .table t => t.text?.map (⟨.table, ·⟩)
  | .list items => some (listLine items)
  | v => some ⟨.value, v.literalText⟩

end TableConsole
