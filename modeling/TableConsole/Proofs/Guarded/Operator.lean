import TableConsole.Proofs.Eval.Broadcast
import TableConsole.Proofs.Guarded.Basic

/-! # Guarded operators

An operator on two atoms is asked for neither membership nor a weighted average, because these are
taken before two values meet item by item. The weight or the number of an atom is the first of its
items, which is there to be repeated.
-/

namespace TableConsole.Guarded

set_option autoImplicit false

def weightedPairs (weights values : Value) : Except (Halt EvalError) (List (Float × Float)) := do
  let ws ← lift (Builtin.wavg.numbers weights)
  let xs ← lift (Builtin.wavg.numbers values)
  match weights.isAtom, values.isAtom with
  | true, false => within (xs.mapM fun x => ws[0]?.map (·, x))
  | false, true => within (ws.mapM fun w => xs[0]?.map (w, ·))
  | _, _ =>
    if ws.length = xs.length then .ok (ws.zip xs)
    else .error (.error (.length ws.length xs.length))

def weightedAverage (weights values : Value) : Except (Halt EvalError) Value := do
  let pairs ← weightedPairs weights values
  if pairs.isEmpty then .ok .null
  else
    let products := pairs.map fun (w, x) => Number.Operation.multiply.apply w x
    .ok (.number (Number.quotient (Number.sum products) (Number.sum (pairs.map (·.1)))))

def atoms (op : BinOp) (a b : Value) : Except (Halt EvalError) Value :=
  match op with
  | .elementwise op => lift (op.onAtoms a b)
  | .member | .weightedAverage => .error .breach

def unlisted (op : BinOp) (a b : Value) : Except (Halt EvalError) Value :=
  match op, a, b with
  | .elementwise op, .table _, b => .error (.error (.type (.operands op .table b.kind)))
  | .elementwise op, a, .table _ => .error (.error (.type (.operands op a.kind .table)))
  | op, a, b => atoms op a b

mutual

def binary (op : BinOp) (a b : Value) : Except (Halt EvalError) Value :=
  match op with
  | .member => .ok (a.member b)
  | .weightedAverage => weightedAverage a b
  | .elementwise f =>
    match a, b with
    | .list as, .list bs =>
      if as.length = bs.length then (binaryItems op as bs).map .list
      else .error (.error (.length as.length bs.length))
    | .list _, .table _ => .error (.error (.type (.operands f .list .table)))
    | .list _, .atom _ | .list _, .function _ => a.overLists (unlisted op · b)
    | .table _, b => .error (.error (.type (.operands f .table b.kind)))
    | .atom _, b | .function _, b => b.overLists (unlisted op a ·)

def binaryItems (op : BinOp) : List Value → List Value → Except (Halt EvalError) (List Value)
  | a :: as, b :: bs => do
    let v ← binary op a b
    let vs ← binaryItems op as bs
    .ok (v :: vs)
  | _, _ => .ok []

end

theorem Faithful.overLists {g : Value → Except (Halt EvalError) Value}
    {f : Value → Except EvalError Value} (h : ∀ v, Faithful (g v) (f v)) :
    ∀ v : Value, Faithful (v.overLists g) (v.overLists f)
  | .list vs => by
    rw [Value.overLists_list, Value.overLists_list]
    refine Faithful.map (Faithful.mapM (List.forall₂_same.mpr fun v hv => ?_)) _
    exact Faithful.overLists h v
  | .atom a => h (.atom a)
  | .table t => h (.table t)
  | .function source => h (.function source)

theorem proper_overLists {f : Value → Except EvalError Value} (hf : ∀ v, isProper (f v))
    (v : Value) : isProper (v.overLists f) :=
  (Faithful.overLists (fun v => .of_proper (hf v)) v).proper

theorem proper_items (b : Builtin) (v : Value) : isProper (b.items v) := by
  cases v <;> rfl

theorem proper_number (b : Builtin) (v : Value) : isProper (b.number v) := by
  unfold Builtin.number
  split <;> rfl

theorem proper_numbers (b : Builtin) (v : Value) : isProper (b.numbers v) :=
  proper_bind (proper_items b v) fun items => proper_mapM (proper_number b) items

theorem proper_negate (v : Value) : isProper (v.negate) := by
  refine proper_overLists (fun v => ?_) v
  unfold negateAtom
  split <;> rfl

theorem proper_onAtoms (op : AtomOp) (a b : Value) : isProper (op.onAtoms a b) := by
  cases op with
  | arithmetic f =>
    rw [AtomOp.onAtoms]
    split <;> rfl
  | equal | notEqual => rfl
  | compare c =>
    refine proper_map ?_ _
    unfold Comparison.apply
    split
    · rfl
    · split <;> rfl

theorem numbers_of_isAtom {b : Builtin} {v : Value} (hv : v.isAtom = true) {xs : List Float}
    (h : b.numbers v = .ok xs) : ∃ x, xs = [x] := by
  have hitems : b.items v = .ok [v] := by
    cases v with
    | atom | function => rfl
    | list | table => cases hv
  rw [Builtin.numbers, hitems, Except.ok_bind, List.mapM_cons] at h
  obtain ⟨x, -, h⟩ := Except.bind_eq_ok_iff.mp h
  exact ⟨x, (Except.ok.inj h).symm⟩

theorem weightedPairs_faithful (weights values : Value) :
    Faithful (weightedPairs weights values) (TableConsole.weightedPairs weights values) := by
  refine (Faithful.of_proper (proper_numbers .wavg weights)).bind fun ws hws => ?_
  refine (Faithful.of_proper (proper_numbers .wavg values)).bind fun xs hxs => ?_
  cases hweights : weights.isAtom <;> cases hvalues : values.isAtom
  case true.false =>
    obtain ⟨w, rfl⟩ := numbers_of_isAtom hweights hws
    have hpairs : (xs.mapM fun x => [w][0]?.map (·, x)) = some (xs.map (w, ·)) :=
      Option.mapM_eq_some fun x _ => rfl
    dsimp only
    rw [hpairs]
    exact .ok _
  case false.true =>
    obtain ⟨x, rfl⟩ := numbers_of_isAtom hvalues hxs
    have hpairs : (ws.mapM fun w => [x][0]?.map (w, ·)) = some (ws.map (·, x)) :=
      Option.mapM_eq_some fun w _ => rfl
    dsimp only
    rw [hpairs]
    cases ws <;> exact .ok _
  all_goals
    dsimp only
    split
    · exact .ok _
    · exact .error rfl

theorem weightedAverage_faithful (weights values : Value) :
    Faithful (weightedAverage weights values) (weights.weightedAverage values) := by
  refine (weightedPairs_faithful weights values).bind fun pairs _ => ?_
  dsimp only
  split
  · exact .ok _
  · exact .ok _

theorem unlisted_faithful (op : AtomOp) (a b : Value) :
    Faithful (unlisted (.elementwise op) a b) (op.onUnlisted a b) := by
  have hatoms : Faithful (atoms (.elementwise op) a b) (op.onAtoms a b) :=
    .of_proper (proper_onAtoms op a b)
  cases a with
  | table t => exact .error rfl
  | atom | list | function =>
    cases b with
    | table t => exact .error rfl
    | atom | list | function => exact hatoms

theorem binaryItems_eq (op : BinOp) (as bs : List Value) :
    binaryItems op as bs = (as.zip bs).mapM fun p => binary op p.1 p.2 := by
  induction as generalizing bs with
  | nil => cases bs <;> rfl
  | cons a as ih =>
    cases bs with
    | nil => rfl
    | cons b bs =>
      rw [binaryItems, List.zip_cons_cons, List.mapM_cons, ih]
      rfl

/-- Operators on atoms are only ever asked for two atoms. -/
theorem elementwise_faithful (op : AtomOp) :
    ∀ a b, Faithful (binary (.elementwise op) a b) (op.apply a b)
  | .list as, .list bs => by
    by_cases hlength : as.length = bs.length
    · rw [AtomOp.apply_list_list op hlength, binary, if_pos hlength, binaryItems_eq]
      refine Faithful.map (Faithful.mapM (List.forall₂_same.mpr fun (a, b) hp => ?_)) _
      obtain ⟨ha, hb⟩ := List.of_mem_zip hp
      exact elementwise_faithful op a b
    · rw [AtomOp.apply, if_neg hlength, binary, if_neg hlength]
      exact .error rfl
  | .list as, .table t => .error rfl
  | .list as, .atom b => by
    rw [AtomOp.apply_list_of_isAtom op as rfl, binary]
    exact Faithful.overLists (unlisted_faithful op · _) _
  | .list as, .function source => by
    rw [AtomOp.apply_list_of_isAtom op as rfl, binary]
    exact Faithful.overLists (unlisted_faithful op · _) _
  | .table t, b => by
    rw [AtomOp.apply, binary]
    exact .error rfl
  | .atom a, b => by
    rw [AtomOp.apply, binary]
    exact Faithful.overLists (unlisted_faithful op _) b
  | .function source, b => by
    rw [AtomOp.apply, binary]
    exact Faithful.overLists (unlisted_faithful op _) b

theorem binary_faithful (op : BinOp) (a b : Value) : Faithful (binary op a b) (op.apply a b) := by
  cases op with
  | elementwise op => exact elementwise_faithful op a b
  | member =>
    rw [binary]
    exact .ok _
  | weightedAverage =>
    rw [binary]
    exact weightedAverage_faithful a b

end TableConsole.Guarded
