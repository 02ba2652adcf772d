import TableConsole.Proofs.Eval.FilterSplit

/-! # Filters row by row

Filters are evaluated over whole columns of the rows that are left. A row-local filter could as
well be asked of each row alone: what it computes is either one atom, whichever rows are selected,
or a list whose items are computed from their rows. The converse direction is not claimed: a row
that no earlier filter has removed can make a filter fail.
-/

namespace TableConsole

set_option autoImplicit false

inductive RowLocal (columns : List String) (symbols : Symbols) : Expr → Prop
  | literal (a : Atom) : RowLocal columns symbols (.literal a)
  | column {n : String} : n ∈ columns → RowLocal columns symbols (.name n)
  | index : RowLocal columns symbols (.name "i")
  | symbol {n : String} {v : Value} :
    symbols.get? n = some v → v.isAtom → RowLocal columns symbols (.name n)
  | negate {e : Expr} : RowLocal columns symbols e → RowLocal columns symbols (.negate e)
  | elementwise (op : AtomOp) {left right : Expr} :
    RowLocal columns symbols left → RowLocal columns symbols right →
      RowLocal columns symbols (.binary (.elementwise op) left right)
  | member {e : Expr} (as : List Atom) :
    RowLocal columns symbols e →
      RowLocal columns symbols (.binary .member e (.list (as.map .literal)))

/-- A truthy atom, or a truthy item alone in its list. -/
def passes : Except EvalError Value → Bool
  | .ok (.list [v]) => v.truthy
  | .ok (.list _) | .ok (.table _) | .error _ => false
  | .ok v => v.truthy

section Lists

variable {α β γ : Type} {P : α → β → Prop} {Q : α → γ → Prop}

theorem forall₂_comp {R : β → γ → Prop} {xs : List α} {ys : List β} {zs : List γ}
    (hxy : List.Forall₂ P xs ys) (hyz : List.Forall₂ R ys zs) :
    List.Forall₂ (fun x z => ∃ y, P x y ∧ R y z) xs zs := by
  induction hxy generalizing zs with
  | nil =>
    cases hyz
    exact .nil
  | cons hx _ ih =>
    cases hyz with
    | cons hz hzs => exact .cons ⟨_, hx, hz⟩ (ih hzs)

theorem forall₂_zip_right {xs : List α} {ys : List β} {zs : List γ}
    (hys : List.Forall₂ P xs ys) (hzs : List.Forall₂ Q xs zs) :
    List.Forall₂ (fun x p => P x p.1 ∧ Q x p.2) xs (ys.zip zs) := by
  induction hys generalizing zs with
  | nil =>
    cases hzs
    exact .nil
  | cons hy _ ih =>
    cases hzs with
    | cons hz hzs => exact .cons ⟨hy, hz⟩ (ih hzs)

end Lists

theorem Value.overLists_of_isAtom {f : Value → Except EvalError Value} {v : Value}
    (h : v.isAtom) : v.overLists f = f v := by
  cases v with
  | atom | function => rfl
  | list | table => cases h

theorem Value.overLists_singleton (f : Value → Except EvalError Value) (v : Value) :
    (Value.list [v]).overLists f = (v.overLists f).map fun w => .list [w] := by
  rw [Value.overLists_list, List.mapM_cons, List.mapM_nil]
  cases v.overLists f <;> rfl

theorem Value.overLists_items {f : Value → Except EvalError Value} {vs : List Value} {w : Value}
    (h : (Value.list vs).overLists f = .ok w) :
    ∃ ws, w = .list ws ∧
      List.Forall₂ (fun v w => (Value.list [v]).overLists f = .ok (.list [w])) vs ws := by
  rw [Value.overLists_list, Except.map_eq_ok_iff] at h
  obtain ⟨ws, hws, rfl⟩ := h
  refine ⟨ws, rfl, (Except.mapM_eq_ok_iff.mp hws).imp ?_⟩
  intro v w hw
  rw [Value.overLists_singleton, hw]
  rfl

theorem negateAtom_isAtom {v w : Value} (h : negateAtom v = .ok w) : w.isAtom := by
  unfold negateAtom at h
  split at h
  · cases h
    rfl
  · cases h

theorem AtomOp.onAtoms_isAtom {op : AtomOp} {a b v : Value} (h : op.onAtoms a b = .ok v) :
    v.isAtom := by
  cases op with
  | arithmetic f =>
    simp only [AtomOp.onAtoms] at h
    split at h
    · cases h
      rfl
    · cases h
  | equal | notEqual =>
    cases h
    rfl
  | compare c =>
    obtain ⟨b, -, rfl⟩ := Except.map_eq_ok_iff.mp h
    rfl

theorem AtomOp.onUnlisted_isAtom {op : AtomOp} {a b v : Value} (h : op.onUnlisted a b = .ok v) :
    v.isAtom := by
  unfold AtomOp.onUnlisted at h
  split at h
  · cases h
  · cases h
  · exact AtomOp.onAtoms_isAtom h

theorem AtomOp.apply_of_isAtom_left (op : AtomOp) {a : Value} (ha : a.isAtom) (b : Value) :
    op.apply a b = b.overLists (op.onUnlisted a ·) := by
  cases a with
  | atom | function => rw [AtomOp.apply]
  | list | table => cases ha

theorem AtomOp.apply_list_of_isAtom (op : AtomOp) (as : List Value) {b : Value} (hb : b.isAtom) :
    op.apply (.list as) b = (Value.list as).overLists (op.onUnlisted · b) := by
  cases b with
  | atom | function => simp [AtomOp.apply, Value.overLists]
  | list | table => cases hb

theorem AtomOp.apply_singletons (op : AtomOp) (a b : Value) :
    op.apply (.list [a]) (.list [b]) = (op.apply a b).map fun v => .list [v] := by
  have hlists : op.apply (.list [a]) (.list [b]) =
      (([a].zip [b]).mapM fun p => op.apply p.1 p.2).map .list := AtomOp.apply_list_list op rfl
  rw [hlists, List.zip_cons_cons, List.zip_nil_left, List.mapM_cons, List.mapM_nil]
  cases op.apply a b <;> rfl

theorem AtomOp.apply_items {op : AtomOp} {as bs : List Value} {v : Value}
    (h : op.apply (.list as) (.list bs) = .ok v) :
    ∃ vs, v = .list vs ∧
      List.Forall₂ (fun (p : Value × Value) v => op.apply (.list [p.1]) (.list [p.2]) = .ok (.list [v]))
        (as.zip bs) vs := by
  by_cases hlength : as.length = bs.length
  · rw [AtomOp.apply_list_list op hlength, Except.map_eq_ok_iff] at h
    obtain ⟨vs, hvs, rfl⟩ := h
    refine ⟨vs, rfl, (Except.mapM_eq_ok_iff.mp hvs).imp ?_⟩
    intro p v hv
    rw [AtomOp.apply_singletons, hv]
    rfl
  · rw [AtomOp.apply, if_neg hlength] at h
    cases h

variable {s : Scope} {A B : Selection}

def Selection.only (A : Selection) (row : List Value × Nat) : Selection :=
  ⟨A.columns, [row]⟩

/-- An atom for every selection of these columns, or a list of what the single rows give. -/
inductive Pointwise (s : Scope) (e : Expr) (A : Selection) : Value → Prop
  | constant {v : Value} :
    v.isAtom → (∀ B : Selection, B.columns = A.columns → e.eval (s.within B) = .ok v) →
      Pointwise s e A v
  | items {vs : List Value} :
    List.Forall₂ (fun row v => e.eval (s.within (A.only row)) = .ok (.list [v])) A.rows vs →
      Pointwise s e A (.list vs)

theorem pointwise_column {n : String} {index : Nat} {v : Value}
    (hindex : Table.columnIndex? A.columns n = some index)
    (h : (A.column index).map .list = .ok v) : Pointwise s (.name n) A v := by
  obtain ⟨vs, hvs, rfl⟩ := Except.map_eq_ok_iff.mp h
  refine .items ((Except.mapM_eq_ok_iff.mp hvs).imp ?_)
  intro row v hcell
  have hcolumn : (A.only row).column index = .ok [v] := by
    unfold Selection.column Selection.only
    rw [List.mapM_cons, List.mapM_nil, hcell]
    rfl
  rw [Expr.eval, Scope.resolve_within, Selection.only, hindex]
  exact congrArg (Except.map Value.list) hcolumn

theorem pointwise_numbers (hindex : Table.columnIndex? A.columns "i" = none) :
    Pointwise s (.name "i") A (.list A.numbers) := by
  refine .items ?_
  unfold Selection.numbers
  rw [List.forall₂_map_right_iff, List.forall₂_same]
  intro row _
  rw [Expr.eval, Scope.resolve_within, Selection.only, hindex]
  rfl

theorem pointwise_name {n : String} {v : Value}
    (hn : n ∈ A.columns ∨ n = "i" ∨ ∃ v, s.symbols.get? n = some v ∧ v.isAtom)
    (h : (Expr.name n).eval (s.within A) = .ok v) : Pointwise s (.name n) A v := by
  rw [Expr.eval, Scope.resolve_within] at h
  cases hindex : Table.columnIndex? A.columns n with
  | some index =>
    rw [hindex] at h
    exact pointwise_column hindex h
  | none =>
    rw [hindex] at h
    by_cases hi : n = "i"
    · subst hi
      cases h
      exact pointwise_numbers hindex
    · obtain hcolumn | rfl | ⟨w, hw, hatom⟩ := hn
      · exact absurd hindex (columnIndex?_ne_none hcolumn)
      · exact absurd rfl hi
      · have hsymbol : s.symbol n = .ok w := by rw [Scope.symbol, hw]
        simp only [if_neg hi, hsymbol] at h
        cases h
        refine .constant hatom fun B hB => ?_
        rw [Expr.eval, Scope.resolve_within, hB, hindex]
        simp only [if_neg hi, hsymbol]

theorem pointwise_negate {e : Expr} {v : Value}
    (ih : ∀ v, e.eval (s.within A) = .ok v → Pointwise s e A v)
    (h : (Expr.negate e).eval (s.within A) = .ok v) : Pointwise s (.negate e) A v := by
  rw [Expr.eval] at h
  obtain ⟨w, hw, hv⟩ := Except.bind_eq_ok_iff.mp h
  cases ih w hw with
  | constant hatom hsame =>
    have hresult : v.isAtom := by
      rw [Value.negate, Value.overLists_of_isAtom hatom] at hv
      exact negateAtom_isAtom hv
    refine .constant hresult fun B hB => ?_
    rw [Expr.eval, hsame B hB]
    exact hv
  | items hitems =>
    obtain ⟨vs, rfl, hvs⟩ := Value.overLists_items hv
    refine .items ((forall₂_comp hitems hvs).imp ?_)
    rintro row v ⟨w, hrow, hcell⟩
    rw [Expr.eval, hrow]
    exact hcell

theorem pointwise_elementwise {op : AtomOp} {left right : Expr} {v : Value}
    (ihl : ∀ v, left.eval (s.within A) = .ok v → Pointwise s left A v)
    (ihr : ∀ v, right.eval (s.within A) = .ok v → Pointwise s right A v)
    (h : (Expr.binary (.elementwise op) left right).eval (s.within A) = .ok v) :
    Pointwise s (.binary (.elementwise op) left right) A v := by
  rw [Expr.eval] at h
  obtain ⟨a, ha, h⟩ := Except.bind_eq_ok_iff.mp h
  obtain ⟨b, hb, hv⟩ := Except.bind_eq_ok_iff.mp h
  rw [BinOp.apply] at hv
  cases ihl a ha with
  | constant hatom hleft =>
    cases ihr b hb with
    | constant hatom' hright =>
      have hresult : v.isAtom := by
        rw [AtomOp.apply_of_isAtom_left op hatom, Value.overLists_of_isAtom hatom'] at hv
        exact AtomOp.onUnlisted_isAtom hv
      refine .constant hresult fun B hB => ?_
      rw [Expr.eval, hleft B hB, hright B hB]
      exact hv
    | items hright =>
      -- A constant beside a column is one atom in every row as well.
      rw [AtomOp.apply_of_isAtom_left op hatom] at hv
      obtain ⟨vs, rfl, hvs⟩ := Value.overLists_items hv
      refine .items ((forall₂_comp hright hvs).imp ?_)
      rintro row v ⟨w, hrow, hcell⟩
      rw [Expr.eval, hleft (A.only row) rfl, hrow]
      exact (AtomOp.apply_of_isAtom_left op hatom _).trans hcell
  | items hleft =>
    cases ihr b hb with
    | constant hatom' hright =>
      rw [AtomOp.apply_list_of_isAtom op _ hatom'] at hv
      obtain ⟨vs, rfl, hvs⟩ := Value.overLists_items hv
      refine .items ((forall₂_comp hleft hvs).imp ?_)
      rintro row v ⟨w, hrow, hcell⟩
      rw [Expr.eval, hrow, hright (A.only row) rfl]
      exact (AtomOp.apply_list_of_isAtom op _ hatom').trans hcell
    | items hright =>
      obtain ⟨vs, rfl, hvs⟩ := AtomOp.apply_items hv
      refine .items ((forall₂_comp (forall₂_zip_right hleft hright) hvs).imp ?_)
      rintro row v ⟨⟨a, b⟩, ⟨hrow, hrow'⟩, hcell⟩
      rw [Expr.eval, hrow, hrow']
      exact hcell

theorem itemsNesting_atoms (as : List Atom) :
    Value.itemsNesting 0 (as.map .atom) = 0 := by
  induction as with
  | nil => rfl
  | cons a as ih => simpa [Value.itemsNesting, Value.nesting] using ih

theorem evalItems_literals (s : Scope) (as : List Atom) :
    evalItems s (as.map .literal) = .ok (as.map .atom) := by
  induction as with
  | nil => rfl
  | cons a as ih =>
    rw [List.map_cons, evalItems, ih]
    rfl

theorem eval_literals (s : Scope) (as : List Atom) :
    (Expr.list (as.map .literal)).eval s = .ok (.list (as.map .atom)) := by
  rw [Expr.eval, evalItems_literals]
  simp only [Except.ok_bind, checkedList, Value.nesting, itemsNesting_atoms]
  rfl

theorem pointwise_member {e : Expr} {as : List Atom} {v : Value}
    (ih : ∀ v, e.eval (s.within A) = .ok v → Pointwise s e A v)
    (h : (Expr.binary .member e (.list (as.map .literal))).eval (s.within A) = .ok v) :
    Pointwise s (.binary .member e (.list (as.map .literal))) A v := by
  rw [Expr.eval] at h
  obtain ⟨a, ha, h⟩ := Except.bind_eq_ok_iff.mp h
  rw [eval_literals] at h
  cases h
  cases ih a ha with
  | constant hatom hsame =>
    have hresult : (a.member (.list (as.map .atom))).isAtom := by
      cases a with
      | atom | function => rfl
      | list | table => cases hatom
    refine .constant hresult fun B hB => ?_
    rw [Expr.eval, hsame B hB, eval_literals]
    rfl
  | items hitems =>
    refine .items ?_
    rw [List.forall₂_map_right_iff]
    refine hitems.imp ?_
    intro row v hrow
    rw [Expr.eval, hrow, eval_literals]
    rfl

theorem pointwise_of_rowLocal {e : Expr} (he : RowLocal A.columns s.symbols e) {v : Value}
    (h : e.eval (s.within A) = .ok v) : Pointwise s e A v := by
  induction he generalizing v with
  | literal a =>
    cases h
    exact .constant rfl fun B hB => rfl
  | column hn => exact pointwise_name (.inl hn) h
  | index => exact pointwise_name (.inr (.inl rfl)) h
  | symbol hv hatom => exact pointwise_name (.inr (.inr ⟨_, hv, hatom⟩)) h
  | negate _ ih => exact pointwise_negate (fun _ => ih) h
  | elementwise op _ _ ihl ihr => exact pointwise_elementwise (fun _ => ihl) (fun _ => ihr) h
  | member as _ ih => exact pointwise_member (fun _ => ih) h

theorem passes_of_isAtom {v : Value} (h : v.isAtom) : passes (.ok v) = v.truthy := by
  cases v with
  | atom | function => rfl
  | list | table => cases h

def Selection.rowPasses (A : Selection) (s : Scope) (e : Expr) (row : List Value × Nat) : Bool :=
  passes (e.eval (s.within (A.only row)))

theorem Selection.keep_of_isAtom (A : Selection) {v : Value} (h : v.isAtom) :
    A.keep v = .ok (if v.truthy then A else ⟨A.columns, []⟩) := by
  cases v with
  | atom | function => rfl
  | list | table => cases h

theorem map_fst_filter_zip {rows : List (List Value × Nat)} {flags : List Value}
    {p : List Value × Nat → Bool} (h : List.Forall₂ (fun row flag => flag.truthy = p row) rows flags) :
    ((rows.zip flags).filter (·.2.truthy)).map (·.1) = rows.filter p := by
  induction h with
  | nil => rfl
  | @cons row flag rows flags hrow _ ih =>
    rw [List.zip_cons_cons, List.filter_cons, List.filter_cons, hrow]
    by_cases hp : p row = true
    · rw [if_pos hp, if_pos hp, List.map_cons, ih]
    · rw [if_neg hp, if_neg hp, ih]

theorem Selection.filter_rowLocal {e : Expr} (he : RowLocal A.columns s.symbols e)
    (h : A.filter s e = .ok B) : B = ⟨A.columns, A.rows.filter (A.rowPasses s e)⟩ := by
  obtain ⟨v, hv, hkeep⟩ := Except.bind_eq_ok_iff.mp h
  cases pointwise_of_rowLocal he hv with
  | constant hatom hsame =>
    have hpasses (row : List Value × Nat) : A.rowPasses s e row = v.truthy := by
      rw [Selection.rowPasses, hsame (A.only row) rfl, passes_of_isAtom hatom]
    rw [Selection.keep_of_isAtom A hatom] at hkeep
    obtain rfl := Except.ok.inj hkeep
    by_cases htruthy : v.truthy
    · rw [if_pos htruthy, List.filter_eq_self.mpr fun row _ => (hpasses row).trans htruthy]
    · rw [if_neg htruthy, List.filter_eq_nil_iff.mpr fun row _ => by rwa [hpasses row]]
  | items hitems =>
    have hlength := hitems.length_eq
    rw [Selection.keep, if_pos hlength.symm] at hkeep
    cases hkeep
    refine congrArg (Selection.mk A.columns) (map_fst_filter_zip (hitems.imp ?_))
    intro row v hrow
    rw [Selection.rowPasses, hrow]
    rfl

theorem Selection.filterAll_rowLocal {es : List Expr}
    (hes : ∀ e ∈ es, RowLocal A.columns s.symbols e) (h : A.filterAll s es = .ok B) :
    B = ⟨A.columns, A.rows.filter fun row => es.all fun e => A.rowPasses s e row⟩ := by
  induction es generalizing A with
  | nil =>
    cases h
    simp
  | cons e es ih =>
    obtain ⟨he, hes⟩ := List.forall_mem_cons.mp hes
    rw [Selection.filterAll_cons] at h
    obtain ⟨C, hfilter, hrest⟩ := Except.bind_eq_ok_iff.mp h
    obtain rfl := Selection.filter_rowLocal he hfilter
    have hleft := ih (A := ⟨A.columns, A.rows.filter (A.rowPasses s e)⟩) hes hrest
    rw [hleft, List.filter_filter]
    refine congrArg (Selection.mk A.columns) (List.filter_congr fun row _ => ?_)
    rw [List.all_cons, Bool.and_comm]
    rfl

/-- The rows of a table with these numbers. -/
def Selection.ofRows (t : Table Value) (numbers : List Nat) : Selection :=
  ⟨t.columns, numbers.filterMap fun r => t.rows[r]?.map (·, r)⟩

theorem Selection.only_ofTable {t : Table Value} {row : List Value × Nat}
    (h : row ∈ (Selection.ofTable t).rows) :
    (Selection.ofTable t).only row = Selection.ofRows t [row.2] := by
  have hcells : t.rows[row.2]? = some row.1 := List.mem_zipIdx_iff_getElem?.mp h
  unfold Selection.ofRows
  rw [List.filterMap_cons, hcells]
  rfl

theorem Selection.ofRows_numbers {t : Table Value} {rows : List (List Value × Nat)}
    (h : ∀ row ∈ rows, row ∈ (Selection.ofTable t).rows) :
    Selection.ofRows t (rows.map (·.2)) = ⟨t.columns, rows⟩ := by
  have hcells : ∀ row ∈ rows, t.rows[row.2]?.map (·, row.2) = some row := by
    intro row hrow
    rw [List.mem_zipIdx_iff_getElem?.mp (h row hrow)]
    rfl
  unfold Selection.ofRows
  rw [List.filterMap_map]
  refine congrArg (Selection.mk t.columns) ?_
  exact (List.filterMap_congr hcells).trans List.filterMap_some

/-- The numbers of the rows that pass every filter when they are asked alone. -/
def rowsPassing (s : Scope) (t : Table Value) (filters : List Expr) : List Nat :=
  (List.range t.rows.length).filter fun r =>
    filters.all fun e => passes (e.eval (s.within (Selection.ofRows t [r])))

theorem rowsPassing_perm (s : Scope) (t : Table Value) {filters filters' : List Expr}
    (h : filters.Perm filters') : rowsPassing s t filters = rowsPassing s t filters' :=
  List.filter_congr fun _ _ => h.all_eq

theorem filterAll_eq_rowsPassing {t : Table Value} {filters : List Expr} {kept : Selection}
    (hlocal : ∀ e ∈ filters, RowLocal t.columns s.symbols e)
    (h : (Selection.ofTable t).filterAll s filters = .ok kept) :
    kept.rows.map (·.2) = rowsPassing s t filters ∧
      kept = Selection.ofRows t (rowsPassing s t filters) := by
  have hkept := Selection.filterAll_rowLocal (A := Selection.ofTable t) hlocal h
  have hnumbers : kept.rows.map (·.2) = rowsPassing s t filters := by
    have hrow : ∀ row ∈ (Selection.ofTable t).rows,
        (filters.all fun e => (Selection.ofTable t).rowPasses s e row) =
          filters.all fun e => passes (e.eval (s.within (Selection.ofRows t [row.2]))) := by
      intro row hrow
      unfold Selection.rowPasses
      rw [Selection.only_ofTable hrow]
    have hrange : (Selection.ofTable t).rows.map (·.2) = List.range t.rows.length := by
      rw [List.range_eq_range']
      exact List.zipIdx_map_snd 0 t.rows
    rw [hkept, rowsPassing, ← hrange, List.filter_map]
    exact congrArg (List.map (·.2)) (List.filter_congr hrow)
  have hrows : ∀ row ∈ kept.rows, row ∈ (Selection.ofTable t).rows := by
    rw [hkept]
    intro row hrow
    exact List.mem_of_mem_filter hrow
  refine ⟨hnumbers, ?_⟩
  rw [← hnumbers, Selection.ofRows_numbers hrows, hkept]
  rfl

theorem filterAll_rowByRow {t : Table Value} {filters : List Expr} {kept : Selection}
    (hlocal : ∀ e ∈ filters, RowLocal t.columns s.symbols e)
    (h : (Selection.ofTable t).filterAll s filters = .ok kept) :
    kept.rows.map (·.2) = rowsPassing s t filters ∧
      kept = Selection.ofRows t (rowsPassing s t filters) ∧
      ∀ filters' : List Expr, filters.Perm filters' → ∀ kept',
        (Selection.ofTable t).filterAll s filters' = .ok kept' → kept' = kept := by
  obtain ⟨hnumbers, hkept⟩ := filterAll_eq_rowsPassing hlocal h
  refine ⟨hnumbers, hkept, ?_⟩
  intro filters' hperm kept' h'
  have hlocal' : ∀ e ∈ filters', RowLocal t.columns s.symbols e :=
    fun e he => hlocal e (hperm.mem_iff.mpr he)
  rw [(filterAll_eq_rowsPassing hlocal' h').2, ← rowsPassing_perm s t hperm, ← hkept]

/-- ``select from trade where sym in (`AAPL; `IBM), i > 0`` -/
theorem filterAll_rowByRow_trade :
    let known : Expr :=
      .binary .member (.name "sym") (.list ([.symbol "AAPL", .symbol "IBM"].map .literal))
    let later : Expr := .binary (.elementwise (.compare .greater)) (.name "i") (.literal (.number 0))
    let s := Scope.global .empty .computed
    ∃ kept, (Selection.ofTable Sample.trade).filterAll s [known, later] = .ok kept ∧
      kept.rows.map (·.2) = [2] := by
  intro known later s
  have hlocal : ∀ e ∈ [known, later], RowLocal Sample.trade.columns s.symbols e := by
    refine List.forall_mem_cons.mpr ⟨.member _ (.column (by decide)), ?_⟩
    exact List.forall_mem_singleton.mpr (.elementwise _ .index (.literal _))
  have hok : ((Selection.ofTable Sample.trade).filterAll s [known, later]).isOk := by decide +kernel
  have hrows : rowsPassing s Sample.trade [known, later] = [2] := by decide +kernel
  cases h : (Selection.ofTable Sample.trade).filterAll s [known, later] with
  | error e =>
    rw [h] at hok
    cases hok
  | ok kept => exact ⟨kept, rfl, (filterAll_rowByRow hlocal h).1.trans hrows⟩

end TableConsole
