import TableConsole.Eval.Grouping
import TableConsole.Eval.Operator
import TableConsole.Sample
import TableConsole.Value.Text

/-! # Calling built-in functions

Reducers over no items give the missing number, except the count and the sum, which are zero.
-/

namespace TableConsole

set_option autoImplicit false

namespace Builtin

def one (b : Builtin) : List Value → Except EvalError Value
  | [v] => .ok v
  | args => .error (.type (.arity b 1 args.length))

def two (b : Builtin) : List Value → Except EvalError (Value × Value)
  | [v, w] => .ok (v, w)
  | args => .error (.type (.arity b 2 args.length))

def isMissing : Value → Bool
  | .atom (.number x) => x.isNaN
  | _ => false

/-- The better of two items, the earlier one unless the later one is strictly better. -/
def better (b : Builtin) (wanted : Ordering) (item best : Value) : Except EvalError Value :=
  match item.compare? best with
  | some o => .ok (if o = wanted then item else best)
  | none => .error (.type (.argument b item.kind))

/-- The best of the items that are not missing numbers. -/
def extreme (b : Builtin) (wanted : Ordering) (v : Value) : Except EvalError Value := do
  match (← b.items v).filter (!isMissing ·) with
  | [] => .ok .null
  | item :: items => items.foldlM (fun best item => better b wanted item best) item

def countUp (v : Value) : Except EvalError Value :=
  match v.number?.bind Number.natural? with
  | some n =>
    if maxTil < n then .error (.type (.tilLimit v.cellText))
    else .ok (.list ((List.range n).map fun k => .number (Float.ofNat k)))
  | none => .error (.type (.tilNatural v.cellText))

/-- The average of `price` weighted by `size`, for each `sym`. -/
def vwapOf (s : Scope) (t : Table Value) : Except EvalError (Table Value) := do
  match ["sym", "price", "size"].find? fun name => !t.columns.contains name with
  | some name => .error (.table (.vwapColumn name))
  | none =>
    let column (name : String) (selection : Selection) := (s.within selection).resolve name
    group (Selection.ofTable t) [("sym", column "sym")]
      [("vwap", fun selection => do
        Value.weightedAverage (← column "size" selection) (← column "price" selection))]

/-- The table to average: the one called `trade`, or the argument, or the one it names. -/
def vwapSource (s : Scope) : List Value → Except EvalError Value
  | [] => s.resolve "trade"
  | [.atom (.symbol name)] => s.resolve name
  | [v] => .ok v
  | args => .error (.type (.vwapArity args.length))

def vwapCall (s : Scope) (args : List Value) : Except EvalError Value :=
  match s.mode with
  | .canned => .ok (.table Sample.vwap)
  | .computed => do
    match ← vwapSource s args with
    | .table t => (vwapOf s t).map .table
    | v => .error (.type (.argument .vwap v.kind))

def call (b : Builtin) (s : Scope) (args : List Value) : Except EvalError Value :=
  match b with
  | .vwap => vwapCall s args
  | .wavg => do
    let (weights, values) ← b.two args
    weights.weightedAverage values
  | .count => do .ok (.number (Float.ofNat (← b.one args).count))
  | .sum => do .ok (.number (Number.sum (← b.numbers (← b.one args))))
  | .avg => do .ok (.number (Number.mean (← b.numbers (← b.one args))))
  | .min => do b.extreme .lt (← b.one args)
  | .max => do b.extreme .gt (← b.one args)
  | .first => do .ok ((← b.items (← b.one args)).head?.getD .null)
  | .last => do .ok ((← b.items (← b.one args)).getLast?.getD .null)
  | .til => do countUp (← b.one args)
  | .cols => do
    match ← b.one args with
    | .table t => .ok (.list (t.columns.map .symbol))
    | v => .error (.type (.argument .cols v.kind))

end Builtin

end TableConsole
