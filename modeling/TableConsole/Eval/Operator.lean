import TableConsole.Eval.Error
import TableConsole.Value.Key

/-! # Operators

Operators on atoms extend to lists: an atom meets every item of a list, and two lists of one
length meet item by item, to any depth. Tables take no part in them.
-/

namespace TableConsole

set_option autoImplicit false

def Builtin.items (b : Builtin) : Value → Except EvalError (List Value)
  | .list items => .ok items
  | .table _ => .error (.type (.argument b .table))
  | v => .ok [v]

def Builtin.number (b : Builtin) (v : Value) : Except EvalError Float :=
  match v.number? with
  | some x => .ok x
  | none => .error (.type (.argument b v.kind))

def Builtin.numbers (b : Builtin) (v : Value) : Except EvalError (List Float) := do
  (← b.items v).mapM b.number

def negateAtom (v : Value) : Except EvalError Value :=
  match v.number? with
  | some x => .ok (.number (-x))
  | none => .error (.type (.negation v.kind))

def Value.negate : Value → Except EvalError Value :=
  Value.overLists negateAtom

def Comparison.holds : Comparison → Ordering → Bool
  | .less, o => o == .lt
  | .greater, o => o == .gt
  | .lessEqual, o => o != .gt
  | .greaterEqual, o => o != .lt

def Comparison.onNumbers : Comparison → Float → Float → Bool
  | .less, x, y => x < y
  | .greater, x, y => y < x
  | .lessEqual, x, y => x ≤ y
  | .greaterEqual, x, y => y ≤ x

def Comparison.apply (c : Comparison) (a b : Value) : Except EvalError Bool :=
  match a.number?, b.number? with
  | some x, some y => .ok (c.onNumbers x y)
  | _, _ =>
    match a.compare? b with
    | some o => .ok (c.holds o)
    | none => .error (.type (.comparison c a.kind b.kind))

def AtomOp.onAtoms (op : AtomOp) (a b : Value) : Except EvalError Value :=
  match op with
  | .arithmetic f =>
    match a.number?, b.number? with
    | some x, some y => .ok (.number (f.apply x y))
    | _, _ => .error (.type (.operands op a.kind b.kind))
  | .equal => .ok (.boolean (a.equals b))
  | .notEqual => .ok (.boolean (!a.equals b))
  | .compare c => (c.apply a b).map .boolean

def AtomOp.onUnlisted (op : AtomOp) (a b : Value) : Except EvalError Value :=
  match a, b with
  | .table _, b => .error (.type (.operands op .table b.kind))
  | a, .table _ => .error (.type (.operands op a.kind .table))
  | a, b => op.onAtoms a b

mutual

def AtomOp.apply (op : AtomOp) : Value → Value → Except EvalError Value
  | .list as, .list bs =>
    if as.length = bs.length then op.applyItems [] as bs
    else .error (.length as.length bs.length)
  | .list _, .table _ => .error (.type (.operands op .list .table))
  | .list as, b => Value.overItems (op.onUnlisted · b) [] as
  | .table _, b => .error (.type (.operands op .table b.kind))
  | .atom a, b => Value.overLists (op.onUnlisted (.atom a) ·) b
  | .function source, b => Value.overLists (op.onUnlisted (.function source) ·) b

/-- The results so far are in `done`, last one first. -/
def AtomOp.applyItems (op : AtomOp) (done : List Value) :
    List Value → List Value → Except EvalError Value
  | a :: as, b :: bs =>
    match op.apply a b with
    | .ok v => op.applyItems (v :: done) as bs
    | .error e => .error e
  | _, _ => .ok (.list done.reverse)

end

theorem AtomOp.applyItems_eq (op : AtomOp) (done as bs : List Value) :
    op.applyItems done as bs =
      ((as.zip bs).mapM fun p => op.apply p.1 p.2).map fun vs => .list (done.reverse ++ vs) := by
  induction as generalizing done bs with
  | nil => simp [applyItems, Except.map, pure, Except.pure]
  | cons a as ih =>
    cases bs with
    | nil => simp [applyItems, Except.map, pure, Except.pure]
    | cons b bs =>
      rw [applyItems, List.zip_cons_cons, List.mapM_cons]
      cases op.apply a b with
      | error e => rfl
      | ok v =>
        simp only [ih, List.reverse_cons, List.append_assoc, List.singleton_append]
        cases (as.zip bs).mapM fun p => op.apply p.1 p.2 <;> rfl

theorem AtomOp.apply_list_list (op : AtomOp) {as bs : List Value} (h : as.length = bs.length) :
    op.apply (.list as) (.list bs) = ((as.zip bs).mapM fun p => op.apply p.1 p.2).map .list := by
  rw [apply, if_pos h, applyItems_eq]
  rfl

/-- An atom is asked for itself, a list for each of its items. -/
def Value.member (a b : Value) : Value :=
  let candidates :=
    match b with
    | .list items => items
    | b => [b]
  match a with
  | .list items => .list (items.map fun v => .boolean (candidates.any v.equals))
  | a => .boolean (candidates.any a.equals)

/-- The pairs of a weight and a number; an atom is paired with every item of a list. -/
def weightedPairs (weights values : Value) : Except EvalError (List (Float × Float)) := do
  let ws ← Builtin.wavg.numbers weights
  let xs ← Builtin.wavg.numbers values
  match weights.isAtom, values.isAtom, ws, xs with
  | true, false, [w], xs => .ok (xs.map (w, ·))
  | false, true, ws, [x] => .ok (ws.map (·, x))
  | _, _, ws, xs =>
    if ws.length = xs.length then .ok (ws.zip xs) else .error (.length ws.length xs.length)

def Value.weightedAverage (weights values : Value) : Except EvalError Value := do
  let pairs ← weightedPairs weights values
  if pairs.isEmpty then .ok .null
  else
    let products := pairs.map fun (w, x) => Number.Operation.multiply.apply w x
    .ok (.number (Number.quotient (Number.sum products) (Number.sum (pairs.map (·.1)))))

def BinOp.apply : BinOp → Value → Value → Except EvalError Value
  | .elementwise op, a, b => op.apply a b
  | .member, a, b => .ok (a.member b)
  | .weightedAverage, a, b => a.weightedAverage b

end TableConsole
