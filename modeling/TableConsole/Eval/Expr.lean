import TableConsole.Eval.Builtin

/-! # Evaluating expressions -/

namespace TableConsole

set_option autoImplicit false

/-- The item at a natural number; beyond the end it is missing. -/
def itemAt (items : Array Value) (index : Value) : Except EvalError Value :=
  match index.number?.bind Number.natural? with
  | some n => .ok (items[n]?.getD .null)
  | none => .error (.type (.listIndex index.kind))

/-- A list of indices, to any depth, gives the list of the items. -/
def indexList (items : List Value) : List Value → Except EvalError Value
  | [index] => index.overLists (itemAt items.toArray)
  | args => .error (.type (.listArity args.length))

def indexTable (t : Table Value) : List Value → Except EvalError Value
  | [.atom (.symbol name)] =>
    match Table.columnIndex? t.columns name with
    | some index => (t.rows.mapM (cell · index)).map .list
    | none => .error (.table (.noColumn name))
  | [v] => .error (.type (.tableIndex v.kind))
  | args => .error (.type (.tableArity args.length))

def called : Value :=
  .text "Function executed"

/-- Built-in functions come first, then lists and tables, which are indexed. A lenient application
also finds a built-in function by a part of the name, and answers for an unknown function. -/
def Scope.apply (s : Scope) (lenient : Bool) (f : String) (args : List Value) :
    Except EvalError Value :=
  match Builtin.lookup? f with
  | some b => b.call s args
  | none =>
    match s.resolve f with
    | .ok (.list items) => indexList items args
    | .ok (.table t) => indexTable t args
    | bound =>
      match (if lenient then Builtin.search? f else none) with
      | some b => b.call s args
      | none =>
        match bound with
        | .ok (.function _) => .ok called
        | .ok v => .error (.type (.notFunction f v.kind))
        | .error (.undefinedName name) => if lenient then .ok called else .error (.undefinedName name)
        | .error e => .error e

/-- A list that is not nested too deeply. -/
def checkedList (items : List Value) : Except EvalError Value :=
  if (Value.list items).nesting ≤ maxNesting then .ok (.list items) else .error (.parse .tooDeep)

mutual

def Expr.eval (s : Scope) : Expr → Except EvalError Value
  | .literal a => .ok (.atom a)
  | .function source => .ok (.function source)
  | .list items => do checkedList (← evalItems s items)
  | .table keys columns => do
    let keys ← evalColumns s keys
    let columns ← evalColumns s columns
    (assemble (keys ++ columns)).map .table
  | .name n => s.resolve n
  | .negate e => do (← e.eval s).negate
  | .binary op left right => do
    let a ← left.eval s
    let b ← right.eval s
    op.apply a b
  | .apply f args => do s.apply false f (← evalItems s args)

def evalItems (s : Scope) : List Expr → Except EvalError (List Value)
  | [] => .ok []
  | e :: es => do
    let v ← e.eval s
    let vs ← evalItems s es
    .ok (v :: vs)

def evalColumns (s : Scope) : List (String × Expr) → Except EvalError (List (String × Value))
  | [] => .ok []
  | (name, e) :: columns => do
    let v ← e.eval s
    let vs ← evalColumns s columns
    .ok ((name, v) :: vs)

end

/-- The expression of a call statement: a call at its root is lenient. -/
def Expr.evalCall (s : Scope) : Expr → Except EvalError Value
  | .apply f args => do s.apply true f (← evalItems s args)
  | e => e.eval s

end TableConsole
