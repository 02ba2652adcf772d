import TableConsole.Proofs.Eval.Preservation

/-! # Nesting under evaluation

Operators nest their results no deeper than their operands, a column of cells is a list that nests
no deeper than their table, and list literals are checked. So a value nests no deeper than the levels
that are read off its expression.
-/

namespace TableConsole

set_option autoImplicit false

namespace Value

variable {v w : Value} {items : List Value} {t : Table Value} {n : Nat}

theorem nesting_of_isAtom (h : v.isAtom) : v.nesting = 0 := by
  cases v with
  | atom | function => rfl
  | list | table => cases h

theorem itemsNesting_le_iff {floor : Nat} :
    itemsNesting floor items ≤ n ↔ floor ≤ n ∧ ∀ v ∈ items, v.nesting ≤ n := by
  induction items generalizing floor with
  | nil => simp [itemsNesting]
  | cons v items ih => rw [itemsNesting, ih, Nat.max_le, and_assoc, List.forall_mem_cons]

theorem rowsNesting_le_iff {floor : Nat} {rows : List (List Value)} :
    rowsNesting floor rows ≤ n ↔ floor ≤ n ∧ ∀ row ∈ rows, ∀ v ∈ row, v.nesting ≤ n := by
  induction rows generalizing floor with
  | nil => simp [rowsNesting]
  | cons row rows ih =>
    rw [rowsNesting, ih, itemsNesting_le_iff, and_assoc, List.forall_mem_cons]

theorem nesting_list_le_iff : (Value.list items).nesting ≤ n + 1 ↔ ∀ v ∈ items, v.nesting ≤ n := by
  rw [nesting, Nat.add_le_add_iff_right, itemsNesting_le_iff]
  exact and_iff_right (Nat.zero_le n)

theorem nesting_table_le_iff :
    (Value.table t).nesting ≤ n + 1 ↔ t.Cells fun v => v.nesting ≤ n := by
  rw [nesting, Nat.add_le_add_iff_right, tableNesting, rowsNesting_le_iff]
  exact and_iff_right (Nat.zero_le n)

theorem nesting_list_pos (items : List Value) : 0 < (Value.list items).nesting := by
  rw [nesting]
  exact Nat.succ_pos _

theorem nesting_lt_of_mem (h : v ∈ items) : v.nesting < (Value.list items).nesting := by
  obtain ⟨n, hn⟩ := Nat.exists_eq_succ_of_ne_zero (Nat.ne_of_gt (nesting_list_pos items))
  rw [hn]
  exact Nat.lt_succ_of_le (nesting_list_le_iff.mp (Nat.le_of_eq hn) v h)

theorem nesting_list_le (hn : 0 < n) (h : ∀ v ∈ items, v.nesting < n) :
    (Value.list items).nesting ≤ n := by
  obtain ⟨n, rfl⟩ := Nat.exists_eq_succ_of_ne_zero (Nat.ne_of_gt hn)
  exact nesting_list_le_iff.mpr fun v hv => Nat.le_of_lt_succ (h v hv)

theorem nesting_overLists_le {f : Value → Except EvalError Value}
    (hf : ∀ v w, f v = .ok w → w.nesting ≤ n) (h : v.overLists f = .ok w) :
    w.nesting ≤ v.nesting + n := by
  refine overLists_rel (R := fun v w => w.nesting ≤ v.nesting + n) ?_ ?_ v w h
  · exact fun v w hw => Nat.le_trans (hf v w hw) (Nat.le_add_left n v.nesting)
  · intro vs ws hws
    refine nesting_list_le (Nat.add_pos_left (nesting_list_pos vs) n) fun w hw => ?_
    obtain ⟨v, hv, hle⟩ := hws w hw
    exact Nat.lt_of_le_of_lt hle (Nat.add_lt_add_right (nesting_lt_of_mem hv) n)

end Value

theorem AtomOp.nesting_apply_le {op : AtomOp} {a b v : Value} (h : op.apply a b = .ok v) :
    v.nesting ≤ max a.nesting b.nesting := by
  refine AtomOp.apply_rel (R := fun a b v => v.nesting ≤ max a.nesting b.nesting) ?_ ?_ ?_ ?_ a b v h
  · intro a b v hv
    rw [Value.nesting_of_isAtom (AtomOp.onUnlisted_isAtom hv)]
    exact Nat.zero_le _
  · intro as b vs hb hvs
    rw [Value.nesting_of_isAtom hb, Nat.max_zero]
    refine Value.nesting_list_le (Value.nesting_list_pos as) fun v hv => ?_
    obtain ⟨a, ha, hle⟩ := hvs v hv
    rw [Value.nesting_of_isAtom hb, Nat.max_zero] at hle
    exact Nat.lt_of_le_of_lt hle (Value.nesting_lt_of_mem ha)
  · intro a bs vs ha hvs
    rw [Value.nesting_of_isAtom ha, Nat.zero_max]
    refine Value.nesting_list_le (Value.nesting_list_pos bs) fun v hv => ?_
    obtain ⟨b, hb, hle⟩ := hvs v hv
    rw [Value.nesting_of_isAtom ha, Nat.zero_max] at hle
    exact Nat.lt_of_le_of_lt hle (Value.nesting_lt_of_mem hb)
  · intro as bs vs hvs
    have hpos := Value.nesting_list_pos as
    refine Value.nesting_list_le (by omega) fun v hv => ?_
    obtain ⟨a, ha, b, hb, hle⟩ := hvs v hv
    have hlt := Value.nesting_lt_of_mem ha
    have hlt' := Value.nesting_lt_of_mem hb
    omega

theorem BinOp.nesting_apply_le {op : BinOp} {a b v : Value} {j k : Nat} (ha : a.nesting ≤ j)
    (hb : b.nesting ≤ k) (h : op.apply a b = .ok v) : v.nesting ≤ op.levels j k := by
  cases op with
  | elementwise op =>
    have hle := AtomOp.nesting_apply_le h
    simp only [BinOp.levels]
    omega
  | member =>
    cases h
    simp only [BinOp.levels]
    obtain hatom | ⟨items, vs, rfl, hvs, hatoms⟩ := Value.member_atoms a b
    · rw [Value.nesting_of_isAtom hatom]
      exact Nat.zero_le _
    · have hpos := Value.nesting_list_pos items
      rw [hvs]
      refine Value.nesting_list_le (by omega) fun v hv => ?_
      rw [Value.nesting_of_isAtom (hatoms v hv)]
      omega
  | weightedAverage =>
    rw [Value.nesting_of_isAtom (Value.weightedAverage_isAtom h)]
    exact Nat.zero_le _

namespace Invariant

/-- Values of no more than `n + 1` levels, with no more than `n` in them. -/
def nesting (n : Nat) : Invariant where
  value v := v.nesting ≤ n + 1
  inner v := v.nesting ≤ n
  shape _ := True
  inner_of_isAtom v h := by
    rw [Value.nesting_of_isAtom h]
    exact Nat.zero_le n
  value_of_inner _ h := Nat.le_succ_of_le h
  value_list _ := Value.nesting_list_le_iff
  value_table _ := Value.nesting_table_le_iff.trans (and_iff_right trivial).symm
  shape_of_wellFormed _ _ := trivial
  shape_of_subset _ _ _ _ _ := trivial

def limited : Invariant :=
  nesting (maxNesting - 1)

theorem OnScope.of_limited {s : Scope} (hs : limited.OnScope s) {n : Nat} (hn : maxNesting ≤ n + 1) :
    (nesting n).OnScope s where
  symbols name v hv := Nat.le_trans (hs.symbols name v hv) hn
  selection A hA := Nat.le_trans (hs.selection A hA) hn

end Invariant

open Invariant

variable {s : Scope} {args : List Value} {v : Value} {k : Nat}

theorem Builtin.nesting_call_le (hs : limited.OnScope s) {b : Builtin}
    (hargs : ∀ v ∈ args, v.nesting ≤ k) (h : b.call s args = .ok v) :
    v.nesting ≤ b.levels k := by
  have horigin := call_origin h
  cases b with
  | vwap =>
    have hlevels : Max.max maxNesting k - 1 + 1 = Max.max maxNesting k := by
      have hpos : 0 < maxNesting := by decide
      omega
    have hvalue := value_vwapCall (I := .nesting (Max.max maxNesting k - 1))
      (hs.of_limited (by omega)) (fun v hv => Nat.le_trans (hargs v hv) (by omega)) h
    exact Nat.le_trans hvalue (Nat.le_of_eq hlevels)
  | wavg | count | sum | avg => exact Nat.le_of_eq (Value.nesting_of_isAtom horigin)
  | til | cols => exact horigin (.nesting 0)
  | min | max | first | last =>
    obtain ⟨w, hw, hinner⟩ := horigin
    exact hinner (.nesting (k - 1)) (Nat.le_trans (hargs w hw) (by omega))

theorem Builtin.levels_le (b : Builtin) (k : Nat) : b.levels k ≤ maxNesting - 1 + Max.max 1 k := by
  cases b <;> simp only [Builtin.levels, maxNesting] <;> omega

theorem nesting_itemAt_le {items : List Value} {n : Nat} (hitems : ∀ w ∈ items, w.nesting ≤ n)
    {index : Value} (h : itemAt items.toArray index = .ok v) : v.nesting ≤ n := by
  unfold itemAt at h
  split at h
  · cases h
    refine inner_getD (I := .nesting n) fun w hw => hitems w ?_
    rw [List.getElem?_toArray] at hw
    exact List.mem_of_getElem? hw
  · cases h

theorem nesting_indexList_le {items : List Value} {n : Nat} (hitems : ∀ w ∈ items, w.nesting ≤ n)
    (hargs : ∀ v ∈ args, v.nesting ≤ k) (h : indexList items args = .ok v) : v.nesting ≤ n + k := by
  unfold indexList at h
  split at h
  · rename_i index
    have hle := Value.nesting_overLists_le (fun _ _ => nesting_itemAt_le hitems) h
    have hindex := hargs index List.mem_cons_self
    omega
  · cases h

/-- Also if the function is found by a part of its name. -/
theorem Scope.nesting_apply_le (hs : limited.OnScope s) {lenient : Bool} {f : String}
    (hf : Builtin.lookup? f = none) (hargs : ∀ v ∈ args, v.nesting ≤ k)
    (h : s.apply lenient f args = .ok v) : v.nesting ≤ maxNesting - 1 + max 1 k := by
  have hone : v.nesting ≤ maxNesting → v.nesting ≤ maxNesting - 1 + max 1 k := by
    simp only [maxNesting]
    omega
  cases Scope.applied h with
  | builtin hf' =>
    rw [hf] at hf'
    cases hf'
  | list _ hbound h =>
    have hle := nesting_indexList_le (Value.nesting_list_le_iff.mp (hs.resolve hbound)) hargs h
    omega
  | table _ hbound h => exact hone (value_indexTable (I := limited) (hs.resolve hbound) h)
  | @found b _ _ h => exact Nat.le_trans (Builtin.nesting_call_le hs hargs h) (b.levels_le k)
  | answered _ hatom =>
    rw [Value.nesting_of_isAtom hatom]
    exact Nat.zero_le _

/-- A number picks an item, which has a level less than its list. -/
theorem Scope.nesting_apply_number_le (hs : limited.OnScope s) {f : String}
    (hf : Builtin.lookup? f = none) {x : Float}
    (h : s.apply false f [.atom (.number x)] = .ok v) : v.nesting ≤ maxNesting - 1 := by
  cases Scope.applied h with
  | builtin hf' =>
    rw [hf] at hf'
    cases hf'
  | list _ hbound h =>
    refine nesting_indexList_le (k := 0) (Value.nesting_list_le_iff.mp (hs.resolve hbound)) ?_ h
    exact List.forall_mem_singleton.mpr (Nat.le_refl 0)
  | table _ _ h => cases h
  | found _ hlenient => cases hlenient
  | answered _ hatom =>
    rw [Value.nesting_of_isAtom hatom]
    exact Nat.zero_le _

mutual

/-- Values nest no deeper than is read off the expression. -/
theorem Expr.nesting_eval_le (hs : limited.OnScope s) (e : Expr) {v : Value}
    (h : e.eval s = .ok v) : v.nesting ≤ e.levels := by
  cases e with
  | literal | function =>
    cases h
    exact Nat.le_refl 0
  | list items =>
    obtain ⟨vs, hvs, h⟩ := Except.bind_eq_ok_iff.mp h
    have hitems := Value.nesting_list_le_iff.mpr (nesting_evalItems_le hs items hvs)
    unfold checkedList at h
    split at h <;> cases h
    exact Nat.le_min.mpr ⟨‹_›, hitems⟩
  | table keys columns =>
    obtain ⟨ks, hks, h⟩ := Except.bind_eq_ok_iff.mp h
    obtain ⟨cs, hcs, h⟩ := Except.bind_eq_ok_iff.mp h
    obtain ⟨t, ht, rfl⟩ := Except.map_eq_ok_iff.mp h
    let n := max (columnsLevels keys) (columnsLevels columns) - 1
    have hvalue : (Value.table t).nesting ≤ n + 1 := by
      refine value_assemble (I := .nesting n) (List.forall_mem_append.mpr ⟨?_, ?_⟩) ht
      · exact fun c hc => Nat.le_trans (nesting_evalColumns_le hs keys hks c hc) (by omega)
      · exact fun c hc => Nat.le_trans (nesting_evalColumns_le hs columns hcs c hc) (by omega)
    rw [Expr.levels]
    omega
  | name n => exact hs.resolve h
  | negate e =>
    obtain ⟨w, hw, h⟩ := Except.bind_eq_ok_iff.mp h
    refine Nat.le_trans (Value.nesting_overLists_le (n := 0) ?_ h) (Expr.nesting_eval_le hs e hw)
    exact fun _ _ hatom => Nat.le_of_eq (Value.nesting_of_isAtom (negateAtom_isAtom hatom))
  | binary op left right =>
    obtain ⟨a, ha, h⟩ := Except.bind_eq_ok_iff.mp h
    obtain ⟨b, hb, h⟩ := Except.bind_eq_ok_iff.mp h
    exact BinOp.nesting_apply_le (Expr.nesting_eval_le hs left ha) (Expr.nesting_eval_le hs right hb) h
  | apply f args =>
    obtain ⟨vs, hvs, h⟩ := Except.bind_eq_ok_iff.mp h
    have hargs := nesting_evalItems_le hs args hvs
    rw [Expr.levels]
    split
    · rename_i b hf
      rw [Scope.apply, hf] at h
      exact Builtin.nesting_call_le hs hargs h
    · rename_i hf
      split
      · rename_i hpicks
        obtain ⟨x, rfl⟩ := picksItem_eq_true hpicks
        cases hvs
        exact Scope.nesting_apply_number_le hs hf h
      · exact Scope.nesting_apply_le hs hf hargs h

theorem nesting_evalItems_le (hs : limited.OnScope s) (es : List Expr) {vs : List Value}
    (h : evalItems s es = .ok vs) : ∀ v ∈ vs, v.nesting ≤ itemsLevels es := by
  cases es with
  | nil =>
    cases h
    exact fun v hv => absurd hv List.not_mem_nil
  | cons e es =>
    obtain ⟨v, hv, h⟩ := Except.bind_eq_ok_iff.mp h
    obtain ⟨ws, hws, h⟩ := Except.bind_eq_ok_iff.mp h
    cases h
    refine List.forall_mem_cons.mpr ⟨?_, fun w hw => ?_⟩
    · exact Nat.le_trans (Expr.nesting_eval_le hs e hv) (Nat.le_max_left _ _)
    · exact Nat.le_trans (nesting_evalItems_le hs es hws w hw) (Nat.le_max_right _ _)

theorem nesting_evalColumns_le (hs : limited.OnScope s) (columns : List (String × Expr))
    {vs : List (String × Value)} (h : evalColumns s columns = .ok vs) :
    ∀ c ∈ vs, c.2.nesting ≤ columnsLevels columns := by
  cases columns with
  | nil =>
    cases h
    exact fun c hc => absurd hc List.not_mem_nil
  | cons column columns =>
    obtain ⟨v, hv, h⟩ := Except.bind_eq_ok_iff.mp h
    obtain ⟨ws, hws, h⟩ := Except.bind_eq_ok_iff.mp h
    cases h
    refine List.forall_mem_cons.mpr ⟨?_, fun c hc => ?_⟩
    · exact Nat.le_trans (Expr.nesting_eval_le hs column.2 hv) (Nat.le_max_left _ _)
    · exact Nat.le_trans (nesting_evalColumns_le hs columns hws c hc) (Nat.le_max_right _ _)

end

theorem Expr.nesting_evalCall_le (hs : limited.OnScope s) {e : Expr} (he : e.levels ≤ maxNesting)
    (h : e.evalCall s = .ok v) : v.nesting ≤ maxNesting := by
  cases e with
  | apply f args =>
    obtain ⟨vs, hvs, h⟩ := Except.bind_eq_ok_iff.mp h
    have hargs := nesting_evalItems_le hs args hvs
    rw [Expr.levels] at he
    split at he
    · rename_i b hf
      rw [Scope.apply, hf] at h
      exact Nat.le_trans (Builtin.nesting_call_le hs hargs h) he
    · rename_i hf
      refine Nat.le_trans (Scope.nesting_apply_le hs hf hargs h) ?_
      split at he
      · rename_i hpicks
        obtain ⟨x, rfl⟩ := picksItem_eq_true hpicks
        exact Nat.le_refl maxNesting
      · exact he
  | literal | function | list | table | name | negate | binary =>
    exact Nat.le_trans (Expr.nesting_eval_le hs _ h) he

theorem Invariant.limited_kept : limited.Kept False where
  value hs he h := Nat.le_trans (Expr.nesting_eval_le hs _ h) (he.resolve_left id)
  called hs he h := Expr.nesting_evalCall_le hs (he.resolve_left id) h
  inner hs he h :=
    Nat.le_pred_of_lt (Nat.lt_of_le_of_lt (Expr.nesting_eval_le hs _ h) (he.resolve_left id))

end TableConsole
