import TableConsole.Eval.Error
import TableConsole.Settings
import TableConsole.Symbols

/-! # Scopes

Where names are looked up: the columns of the selected rows of a table, then the row number `i` if
rows are selected, then the symbols of the session. A selected row keeps its number in the table
that it comes from.
-/

namespace TableConsole

set_option autoImplicit false

structure Selection where
  columns : List String
  rows : List (List Value × Nat)

def Selection.ofTable (t : Table Value) : Selection :=
  ⟨t.columns, t.rows.zipIdx⟩

def cell (row : List Value) (index : Nat) : Except EvalError Value :=
  match row[index]? with
  | some v => .ok v
  | none => .error .fault

def Selection.column (s : Selection) (index : Nat) : Except EvalError (List Value) :=
  s.rows.mapM fun (row, _) => cell row index

def Selection.numbers (s : Selection) : List Value :=
  s.rows.map fun (_, number) => .number (Float.ofNat number)

structure Scope where
  symbols : Symbols
  mode : Mode
  selection : Option Selection

namespace Scope

def global (symbols : Symbols) (mode : Mode) : Scope :=
  ⟨symbols, mode, none⟩

def within (s : Scope) (selection : Selection) : Scope :=
  { s with selection := some selection }

def symbol (s : Scope) (name : String) : Except EvalError Value :=
  match s.symbols.get? name with
  | some v => .ok v
  | none => .error (.undefinedName name)

def resolve (s : Scope) (name : String) : Except EvalError Value :=
  match s.selection with
  | none => s.symbol name
  | some selection =>
    match Table.columnIndex? selection.columns name with
    | some index => (selection.column index).map .list
    | none => if name = "i" then .ok (.list selection.numbers) else s.symbol name

end Scope

end TableConsole
