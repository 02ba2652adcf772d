import TableConsole.Eval.Scope
import TableConsole.Value.Key

/-! # Assembling and grouping

Columns of a result are computed from selected rows and put together to a table. Grouping splits
the rows by keys; a group is named by the key of its first member, groups stand in the order of
their first members, and the members of a group keep their order.
-/

namespace TableConsole

set_option autoImplicit false

abbrev Computed := String × (Selection → Except EvalError Value)

/-- Atoms are repeated to the length of the first list, and stand once if there is no list. -/
def columnHeight (columns : List (String × Value)) : Nat :=
  (columns.findSome? fun (_, v) =>
    match v with
    | .list items => some items.length
    | _ => none).getD 1

def columnCells (height : Nat) : String × Value → Except EvalError (String × List Value)
  | (name, .list items) => .ok (name, items)
  | (name, .table _) => .error (.type (.tableInColumn name))
  | (name, v) => .ok (name, List.replicate height v)

def ofDefective {α : Type} (t : Except TableDefect (Table α)) : Except EvalError (Table α) :=
  t.mapError EvalError.ofDefect

def assemble (columns : List (String × Value)) : Except EvalError (Table Value) := do
  ofDefective (Table.ofColumns (← columns.mapM (columnCells (columnHeight columns))))

variable {κ α : Type}

/-- The first key takes all items that are the same as it; the others are partitioned on. -/
def partitionWithin (same : κ → κ → Bool) : Nat → List (κ × α) → List (κ × List α)
  | 0, _ => []
  | _ + 1, [] => []
  | limit + 1, (key, x) :: rest =>
    (key, x :: (rest.filter fun (k, _) => same key k).map (·.2)) ::
      partitionWithin same limit (rest.filter fun (k, _) => !same key k)

def partition (same : κ → κ → Bool) (items : List (κ × α)) : List (κ × List α) :=
  partitionWithin same items.length items

def expandKey (height : Nat) : Value → Except EvalError (List Value)
  | .list items => if items.length = height then .ok items else .error (.length height items.length)
  | .table _ => .error (.type .tableInGroup)
  | v => .ok (List.replicate height v)

def keyColumn (s : Selection) (key : Computed) : Except EvalError (List Value) := do
  expandKey s.rows.length (← key.2 s)

def sameKeys : List Value → List Value → Bool :=
  Value.itemsAgree sameNumber

/-- The rows of a selection, split by their keys. -/
def partitions (s : Selection) (keyColumns : List (List Value)) :
    List (List Value × List (List Value × Nat)) :=
  partition sameKeys ((Table.transpose s.rows.length keyColumns).zip s.rows)

/-- Without results, the columns that no key is named after are carried over. -/
def carried (columns keyNames : List String) (results : List Computed) : List (String × Nat) :=
  if results.isEmpty then columns.zipIdx.filter fun (name, _) => !keyNames.contains name else []

def carriedCells (carried : List (String × Nat)) (rows : List (List Value × Nat)) :
    Except EvalError (List Value) :=
  match rows.getLast? with
  | some (row, _) => carried.mapM fun (_, index) => cell row index
  | none => .ok []

def groupRow (columns : List String) (carried : List (String × Nat)) (results : List Computed)
    (key : List Value) (members : List (List Value × Nat)) : Except EvalError (List Value) := do
  let cells ← carriedCells carried members
  let values ← results.mapM fun (_, f) => f ⟨columns, members⟩
  .ok (key ++ cells ++ values)

/-- One row for each group: its key, then the carried cells or the results. -/
def group (s : Selection) (keys results : List Computed) : Except EvalError (Table Value) := do
  let keyColumns ← keys.mapM (keyColumn s)
  let keyNames := keys.map (·.1)
  let carried := carried s.columns keyNames results
  let rows ← (partitions s keyColumns).mapM fun (key, members) =>
    groupRow s.columns carried results key members
  ofDefective (Table.ofRows (keyNames ++ carried.map (·.1) ++ results.map (·.1)) rows)

end TableConsole
