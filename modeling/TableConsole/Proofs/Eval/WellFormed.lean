import TableConsole.Proofs.Eval.Preservation

/-! # Evaluation keeps values well formed

The tables in the value of an expression are rectangular, whatever it indexes and collects.
-/

namespace TableConsole

set_option autoImplicit false

theorem Value.overLists_wellFormed {f : Value → Except EvalError Value}
    (hf : ∀ v w, f v = .ok w → w.WellFormed) {v w : Value} (h : v.overLists f = .ok w) :
    w.WellFormed := by
  refine Value.overLists_rel (R := fun _ w => w.WellFormed) hf ?_ v w h
  intro vs ws hws
  refine Value.wellFormed_list_iff.mpr fun w hw => ?_
  obtain ⟨_, -, hw⟩ := hws w hw
  exact hw

theorem AtomOp.apply_wellFormed {op : AtomOp} {a b v : Value} (h : op.apply a b = .ok v) :
    v.WellFormed := by
  refine AtomOp.apply_rel (R := fun _ _ v => v.WellFormed) ?_ ?_ ?_ ?_ a b v h
  · exact fun _ _ _ hv => Value.wellFormed_of_isAtom (AtomOp.onUnlisted_isAtom hv)
  · intro as b vs _ hvs
    refine Value.wellFormed_list_iff.mpr fun v hv => ?_
    obtain ⟨_, -, hv⟩ := hvs v hv
    exact hv
  · intro a bs vs _ hvs
    refine Value.wellFormed_list_iff.mpr fun v hv => ?_
    obtain ⟨_, -, hv⟩ := hvs v hv
    exact hv
  · intro as bs vs hvs
    refine Value.wellFormed_list_iff.mpr fun v hv => ?_
    obtain ⟨_, -, _, -, hv⟩ := hvs v hv
    exact hv

theorem BinOp.apply_wellFormed {op : BinOp} {a b v : Value} (h : op.apply a b = .ok v) :
    v.WellFormed := by
  cases op with
  | elementwise op => exact AtomOp.apply_wellFormed h
  | member =>
    cases h
    obtain hatom | ⟨_, vs, -, hvs, hatoms⟩ := Value.member_atoms a b
    · exact Value.wellFormed_of_isAtom hatom
    · rw [hvs]
      exact Value.wellFormed_list_iff.mpr fun v hv => Value.wellFormed_of_isAtom (hatoms v hv)
  | weightedAverage => exact Value.wellFormed_of_isAtom (Value.weightedAverage_isAtom h)

theorem indexList_wellFormed {items args : List Value} {v : Value}
    (hitems : ∀ w ∈ items, w.WellFormed) (h : indexList items args = .ok v) : v.WellFormed := by
  unfold indexList at h
  split at h
  · refine Value.overLists_wellFormed (fun index w hw => ?_) h
    unfold itemAt at hw
    split at hw
    · rename_i n _
      cases hw
      cases hitem : items.toArray[n]? with
      | none => exact Value.wellFormed_of_isAtom rfl
      | some u => exact hitems u (List.mem_of_getElem? (by simpa using hitem))
    · cases hw
  · cases h

theorem checkedList_wellFormed {items : List Value} {v : Value} (hitems : ∀ w ∈ items, w.WellFormed)
    (h : checkedList items = .ok v) : v.WellFormed := by
  unfold checkedList at h
  split at h <;> cases h
  exact Value.wellFormed_list_iff.mpr hitems

def Invariant.wellFormed : Invariant where
  value := Value.WellFormed
  inner := Value.WellFormed
  shape := Table.WellFormed
  inner_of_isAtom _ := Value.wellFormed_of_isAtom
  value_of_inner _ h := h
  value_list _ := Value.wellFormed_list_iff
  value_table _ := Value.wellFormed_table_iff
  shape_of_wellFormed _ h := h
  shape_of_subset _ _ h := h.of_subset

open Invariant

variable {s : Scope} {v : Value}

theorem Scope.apply_wellFormed (hs : wellFormed.OnScope s) {lenient : Bool} {f : String}
    {args : List Value} (hargs : ∀ v ∈ args, v.WellFormed) (h : s.apply lenient f args = .ok v) :
    v.WellFormed := by
  cases Scope.applied h with
  | builtin _ h | found _ _ h => exact value_call (I := wellFormed) hs _ hargs h
  | list _ hbound h =>
    have hlist := hs.resolve hbound
    exact indexList_wellFormed (Value.wellFormed_list_iff.mp hlist) h
  | table _ hbound h => exact value_indexTable (I := wellFormed) (hs.resolve hbound) h
  | answered _ hatom => exact Value.wellFormed_of_isAtom hatom

mutual

theorem Expr.eval_wellFormed (hs : wellFormed.OnScope s) (e : Expr) {v : Value}
    (h : e.eval s = .ok v) : v.WellFormed := by
  cases e with
  | literal | function =>
    cases h
    exact Value.wellFormed_of_isAtom rfl
  | list items =>
    obtain ⟨vs, hvs, h⟩ := Except.bind_eq_ok_iff.mp h
    exact checkedList_wellFormed (evalItems_wellFormed hs items hvs) h
  | table keys columns =>
    obtain ⟨ks, hks, h⟩ := Except.bind_eq_ok_iff.mp h
    obtain ⟨cs, hcs, h⟩ := Except.bind_eq_ok_iff.mp h
    obtain ⟨t, ht, rfl⟩ := Except.map_eq_ok_iff.mp h
    refine value_assemble (I := wellFormed) (List.forall_mem_append.mpr ⟨?_, ?_⟩) ht
    · exact evalColumns_wellFormed hs keys hks
    · exact evalColumns_wellFormed hs columns hcs
  | name n => exact hs.resolve h
  | negate e =>
    obtain ⟨w, -, h⟩ := Except.bind_eq_ok_iff.mp h
    refine Value.overLists_wellFormed (fun _ _ hatom => ?_) h
    exact Value.wellFormed_of_isAtom (negateAtom_isAtom hatom)
  | binary op left right =>
    obtain ⟨a, -, h⟩ := Except.bind_eq_ok_iff.mp h
    obtain ⟨b, -, h⟩ := Except.bind_eq_ok_iff.mp h
    exact BinOp.apply_wellFormed h
  | apply f args =>
    obtain ⟨vs, hvs, h⟩ := Except.bind_eq_ok_iff.mp h
    exact Scope.apply_wellFormed hs (evalItems_wellFormed hs args hvs) h

theorem evalItems_wellFormed (hs : wellFormed.OnScope s) (es : List Expr) {vs : List Value}
    (h : evalItems s es = .ok vs) : ∀ v ∈ vs, v.WellFormed := by
  cases es with
  | nil =>
    cases h
    exact fun v hv => absurd hv List.not_mem_nil
  | cons e es =>
    obtain ⟨v, hv, h⟩ := Except.bind_eq_ok_iff.mp h
    obtain ⟨ws, hws, h⟩ := Except.bind_eq_ok_iff.mp h
    cases h
    exact List.forall_mem_cons.mpr ⟨Expr.eval_wellFormed hs e hv, evalItems_wellFormed hs es hws⟩

theorem evalColumns_wellFormed (hs : wellFormed.OnScope s) (columns : List (String × Expr))
    {vs : List (String × Value)} (h : evalColumns s columns = .ok vs) :
    ∀ c ∈ vs, c.2.WellFormed := by
  cases columns with
  | nil =>
    cases h
    exact fun c hc => absurd hc List.not_mem_nil
  | cons column columns =>
    obtain ⟨v, hv, h⟩ := Except.bind_eq_ok_iff.mp h
    obtain ⟨ws, hws, h⟩ := Except.bind_eq_ok_iff.mp h
    cases h
    exact List.forall_mem_cons.mpr
      ⟨Expr.eval_wellFormed hs column.2 hv, evalColumns_wellFormed hs columns hws⟩

end

theorem Expr.evalCall_wellFormed (hs : wellFormed.OnScope s) {e : Expr}
    (h : e.evalCall s = .ok v) : v.WellFormed := by
  cases e with
  | apply f args =>
    obtain ⟨vs, hvs, h⟩ := Except.bind_eq_ok_iff.mp h
    exact Scope.apply_wellFormed hs (evalItems_wellFormed hs args hvs) h
  | literal | function | list | table | name | negate | binary =>
    exact Expr.eval_wellFormed hs _ h

theorem Invariant.wellFormed_kept : wellFormed.Kept True where
  value hs _ h := Expr.eval_wellFormed hs _ h
  called hs _ h := Expr.evalCall_wellFormed hs h
  inner hs _ h := Expr.eval_wellFormed hs _ h

end TableConsole
