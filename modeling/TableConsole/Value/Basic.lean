import TableConsole.Number.Binary
import TableConsole.Value.Atom

/-! # Values

Atoms, lists, tables and stored functions. A table is a list of column names over rows of cells;
its cells are values again. `Table.WellFormed` says that the names are distinct and that every row
has one cell for each.
-/

namespace TableConsole

set_option autoImplicit false

structure Table (α : Type) where
  columns : List String
  rows : List (List α)

inductive Value
  | atom (a : Atom)
  | list (items : List Value)
  | table (t : Table Value)
  /-- The source of a function; functions are stored and never run. -/
  | function (source : String)

inductive Kind
  | number
  | text
  | boolean
  | date
  | symbol
  | list
  | table
  | function
  deriving DecidableEq, Repr

def Kind.name : Kind → String
  | .number => "number"
  | .text => "string"
  | .boolean => "boolean"
  | .date => "date"
  | .symbol => "symbol"
  | .list => "list"
  | .table => "table"
  | .function => "function"

def Atom.kind : Atom → Kind
  | .number _ => .number
  | .text _ => .text
  | .boolean _ => .boolean
  | .date _ => .date
  | .symbol _ => .symbol

/-- Booleans count as one and zero. -/
def Atom.number? : Atom → Option Float
  | .number x => some x
  | .boolean b => some (if b then 1 else 0)
  | _ => none

def Atom.truthy : Atom → Bool
  | .number x => x != 0 && !x.isNaN
  | .text s | .symbol s => !s.isEmpty
  | .boolean b => b
  | .date _ => true

namespace Value

abbrev number (x : Float) : Value := .atom (.number x)

abbrev text (s : String) : Value := .atom (.text s)

abbrev boolean (b : Bool) : Value := .atom (.boolean b)

abbrev date (d : Date) : Value := .atom (.date d)

abbrev symbol (s : String) : Value := .atom (.symbol s)

def null : Value :=
  number Number.nan

def kind : Value → Kind
  | .atom a => a.kind
  | .list _ => .list
  | .table _ => .table
  | .function _ => .function

/-- Everything but lists and tables; stored functions count as atoms. -/
def isAtom : Value → Bool
  | .list _ | .table _ => false
  | _ => true

/-- Items of a list, rows of a table, one for the rest. -/
def count : Value → Nat
  | .list items => items.length
  | .table t => t.rows.length
  | _ => 1

def number? : Value → Option Float
  | .atom a => a.number?
  | _ => none

def truthy : Value → Bool
  | .atom a => a.truthy
  | .list items => !items.isEmpty
  | .table t => !t.rows.isEmpty
  | .function _ => true

mutual

/-- Levels of lists and tables around the deepest atom. -/
def nesting : Value → Nat
  | .list items => itemsNesting 0 items + 1
  | .table t => tableNesting t + 1
  | _ => 0

/-- The greatest nesting among the items, and at least `floor`. -/
def itemsNesting (floor : Nat) : List Value → Nat
  | [] => floor
  | v :: vs => itemsNesting (max floor v.nesting) vs

def tableNesting : Table Value → Nat
  | ⟨_, rows⟩ => rowsNesting 0 rows

def rowsNesting (floor : Nat) : List (List Value) → Nat
  | [] => floor
  | row :: rows => rowsNesting (itemsNesting floor row) rows

end

variable {ε : Type}

mutual

def overLists (f : Value → Except ε Value) : Value → Except ε Value
  | .list items => overItems f [] items
  | .atom a => f (.atom a)
  | .table t => f (.table t)
  | .function source => f (.function source)

/-- The results so far are in `done`, last one first. -/
def overItems (f : Value → Except ε Value) (done : List Value) :
    List Value → Except ε Value
  | [] => .ok (.list done.reverse)
  | v :: vs =>
    match overLists f v with
    | .ok w => overItems f (w :: done) vs
    | .error e => .error e

end

theorem overItems_eq (f : Value → Except ε Value) (done vs : List Value) :
    overItems f done vs = (vs.mapM (overLists f)).map fun ws => .list (done.reverse ++ ws) := by
  induction vs generalizing done with
  | nil => simp [overItems, Except.map, pure, Except.pure]
  | cons v vs ih =>
    rw [overItems, List.mapM_cons]
    cases overLists f v with
    | error e => rfl
    | ok w =>
      simp only [ih, List.reverse_cons, List.append_assoc, List.singleton_append]
      cases vs.mapM (overLists f) <;> rfl

theorem overLists_list (f : Value → Except ε Value) (vs : List Value) :
    overLists f (.list vs) = (vs.mapM (overLists f)).map .list := by
  rw [overLists, overItems_eq]
  rfl

end Value

end TableConsole
