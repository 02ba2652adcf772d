import TableConsole.Proofs.Eval.FilterSplit
import TableConsole.Proofs.Value.Columns
import TableConsole.Proofs.Value.KeyForm

/-! # Groups

A grouped query partitions the rows that its filters leave. The rows of one part are those with the
same key, component by component, and each part gives one row of the result.
-/

namespace TableConsole

set_option autoImplicit false

theorem expandKey_length {height : Nat} {v : Value} {column : List Value}
    (h : expandKey height v = .ok column) : column.length = height := by
  cases v with
  | list items =>
    rw [expandKey] at h
    split at h
    · cases h
      assumption
    · cases h
  | table t => cases h
  | atom | function =>
    cases h
    exact List.length_replicate

theorem expandKey_tableFree {height : Nat} {v : Value} {column : List Value}
    (h : expandKey height v = .ok column) (hv : v.tableFree = true) :
    ∀ w ∈ column, w.tableFree = true := by
  cases v with
  | list items =>
    rw [expandKey] at h
    split at h
    · cases h
      exact (itemsTableFree_iff column).mp hv
    · cases h
  | table t => cases h
  | atom | function =>
    cases h
    intro w hw
    rw [List.eq_of_mem_replicate hw]
    exact hv

/-- The rows of a selection with their keys. -/
def keyedRows (A : Selection) (keyColumns : List (List Value)) :
    List (List Value × (List Value × Nat)) :=
  (Table.transpose A.rows.length keyColumns).zip A.rows

theorem map_snd_keyedRows {A : Selection} {keyColumns : List (List Value)}
    (h : ∀ column ∈ keyColumns, column.length = A.rows.length) :
    (keyedRows A keyColumns).map (·.2) = A.rows :=
  List.map_snd_zip (Nat.le_of_eq (Table.length_transpose h).symm)

theorem keyedRows_tableFree {A : Selection} {keyColumns : List (List Value)}
    (h : ∀ column ∈ keyColumns, ∀ v ∈ column, v.tableFree = true) :
    ∀ x ∈ keyedRows A keyColumns, itemsTableFree x.1 = true := by
  intro x hx
  rw [itemsTableFree_iff]
  intro v hv
  obtain ⟨column, hcolumn, hmem⟩ := Table.mem_column_of_mem_transpose (List.of_mem_zip hx).1 hv
  exact h column hcolumn v hmem

theorem keyedRows_isPartition {A : Selection} {keyColumns : List (List Value)}
    (h : ∀ column ∈ keyColumns, ∀ v ∈ column, v.tableFree = true) :
    IsPartition (List.Forall₂ fun v w => v.sameKey w = true) (keyedRows A keyColumns)
      ((classes sameKeys (keyedRows A keyColumns)).map fun c => c.1 :: c.2) := by
  have hsame : ∀ x ∈ keyedRows A keyColumns, ∀ y ∈ keyedRows A keyColumns,
      sameKeys x.1 y.1 = true ↔ itemsKeyForm x.1 = itemsKeyForm y.1 :=
    fun x hx y _ => itemsAgree_iff_keyForm x.1 y.1 (keyedRows_tableFree h x hx)
  simpa only [sameKeys, itemsAgree_iff_forall₂] using classes_isPartition hsame

def Query.groupNames (q : Query) : List String :=
  q.groups.zipIdx.map fun (p, position) => p.columnName position

/-- The row that a part gives: the key of its first member, then either the cells of its last member
in the columns that no key is named after, or the projections over all its members. -/
inductive GroupRow (q : Query) (s : Scope) (columns : List String) :
    List (List Value × (List Value × Nat)) → List Value → Prop
  | carried {part : List (List Value × (List Value × Nat))} {first last} :
    q.projections = [] → part.head? = some first → part.getLast? = some last →
      GroupRow q s columns part
        (first.1 ++ ((columns.zip last.2.1).filter fun c => !q.groupNames.contains c.1).map (·.2))
  | computed {part : List (List Value × (List Value × Nat))} {first} {values : List Value} :
    q.projections ≠ [] → part.head? = some first →
    q.projections.mapM (fun p => p.expr.eval (s.within ⟨columns, part.map (·.2)⟩)) = .ok values →
      GroupRow q s columns part (first.1 ++ values)

theorem map_fst_computedFrom (q : Query) (s : Scope) :
    (computedFrom s 0 q.groups).map (·.1) = q.groupNames := by
  rw [computedFrom, List.map_map]
  rfl

theorem mapM_computedFrom {α : Type} (s : Scope) (start : Nat) (ps : List Projection)
    (A : Selection) (f : Except EvalError Value → Except EvalError α) :
    ((computedFrom s start ps).mapM fun c => f (c.2 A)) =
      ps.mapM fun p => f (p.expr.eval (s.within A)) := by
  have hplaced : (ps.zipIdx start).map (·.1) = ps := List.zipIdx_map_fst start ps
  conv_rhs => rw [← hplaced]
  rw [computedFrom, List.mapM_map, List.mapM_map]
  rfl

theorem cell_eq_ok_iff {row : List Value} {index : Nat} {v : Value} :
    cell row index = .ok v ↔ row[index]? = some v := by
  unfold cell
  cases row[index]? <;> simp

theorem carried_cells {columns names : List String} {row : List Value} {start : Nat}
    {cells : List Value}
    (h : ((columns.zipIdx start).filter fun c => !names.contains c.1).mapM
      (fun c => cell row c.2) = .ok cells) :
    cells = ((columns.zip (row.drop start)).filter fun c => !names.contains c.1).map (·.2) := by
  induction columns generalizing start cells with
  | nil =>
    cases h
    rfl
  | cons name columns ih =>
    rw [List.zipIdx_cons, List.filter_cons] at h
    by_cases hname : (!names.contains name) = true
    · rw [if_pos hname, List.mapM_cons] at h
      obtain ⟨v, hcell, h⟩ := Except.bind_eq_ok_iff.mp h
      obtain ⟨vs, hrest, h⟩ := Except.bind_eq_ok_iff.mp h
      obtain rfl := Except.ok.inj h
      have hdrop : row.drop start = v :: row.drop (start + 1) := by
        rw [List.drop_eq_getElem?_toList_append, cell_eq_ok_iff.mp hcell]
        rfl
      rw [hdrop, List.zip_cons_cons, List.filter_cons, if_pos hname, List.map_cons, ih hrest]
    · rw [if_neg hname] at h
      rw [ih h]
      cases hdrop : row.drop start with
      | nil =>
        have hnone : row.drop (start + 1) = [] := by
          rw [← List.tail_drop, hdrop, List.tail_nil]
        rw [hnone, List.zip_nil_right, List.zip_nil_right]
      | cons v rest =>
        have hrest : row.drop (start + 1) = rest := by
          rw [← List.tail_drop, hdrop, List.tail_cons]
        rw [hrest, List.zip_cons_cons, List.filter_cons, if_neg hname]

theorem group_eq_ok {A : Selection} {keys results : List Computed} {out : Table Value}
    (h : group A keys results = .ok out) :
    ∃ keyColumns, keys.mapM (keyColumn A) = .ok keyColumns ∧
      List.Forall₂ (fun c row =>
        groupRow A.columns (carried A.columns (keys.map (·.1)) results) results c.1.1
          ((c.1 :: c.2).map (·.2)) = .ok row)
        (classes sameKeys (keyedRows A keyColumns)) out.rows := by
  unfold group at h
  obtain ⟨keyColumns, hkeys, h⟩ := Except.bind_eq_ok_iff.mp h
  obtain ⟨rows, hrows, h⟩ := Except.bind_eq_ok_iff.mp h
  obtain ⟨rfl, -⟩ := Table.ofRows_eq_ok_iff.mp (Except.mapError_eq_ok_iff.mp h)
  refine ⟨keyColumns, hkeys, ?_⟩
  have hparts := Except.mapM_eq_ok_iff.mp hrows
  unfold partitions at hparts
  rw [partition_eq_classes, List.forall₂_map_left_iff] at hparts
  exact hparts

theorem carriedCells_nil (rows : List (List Value × Nat)) : carriedCells [] rows = .ok [] := by
  unfold carriedCells
  cases rows.getLast? <;> rfl

theorem groupRow_of_ok {q : Query} {s : Scope} {columns : List String}
    {first : List Value × (List Value × Nat)} {others : List (List Value × (List Value × Nat))}
    {row : List Value}
    (h : groupRow columns
      (carried columns q.groupNames (computedFrom s q.groups.length q.projections))
      (computedFrom s q.groups.length q.projections) first.1 ((first :: others).map (·.2)) =
        .ok row) :
    GroupRow q s columns (first :: others) row := by
  obtain ⟨cells, hcells, h⟩ := Except.bind_eq_ok_iff.mp h
  obtain ⟨values, hvalues, h⟩ := Except.bind_eq_ok_iff.mp h
  obtain rfl := Except.ok.inj h
  -- Without projections nothing is computed, with any nothing is carried.
  by_cases hprojections : q.projections = []
  · rw [hprojections] at hcells hvalues
    obtain rfl : [] = values := Except.ok.inj hvalues
    have hlast := List.getLast?_eq_some_getLast (List.cons_ne_nil first others)
    have hcarried : carried columns q.groupNames (computedFrom s q.groups.length []) =
        columns.zipIdx.filter fun c => !q.groupNames.contains c.1 :=
      if_pos rfl
    unfold carriedCells at hcells
    rw [hcarried, List.getLast?_map, hlast] at hcells
    rw [List.append_nil, carried_cells hcells]
    exact .carried hprojections rfl hlast
  · have hresults : computedFrom s q.groups.length q.projections ≠ [] := by
      simpa [computedFrom] using hprojections
    have hcarried :
        carried columns q.groupNames (computedFrom s q.groups.length q.projections) = [] :=
      if_neg (by simpa using hresults)
    rw [hcarried] at hcells
    obtain rfl : [] = cells := Except.ok.inj ((carriedCells_nil _).symm.trans hcells)
    rw [List.append_nil]
    refine .computed hprojections rfl ?_
    rw [← hvalues]
    exact (mapM_computedFrom s _ q.projections ⟨columns, _⟩ id).symm

theorem group_partitions {q : Query} {s : Scope} {t : Table Value} {selection : Selection}
    {out : Table Value} (hgroups : q.groups ≠ [])
    (hfilters : (Selection.ofTable t).filterAll s q.filters = .ok selection)
    (hfree : ∀ p ∈ q.groups, ∀ v,
      p.expr.eval (s.within selection) = .ok v → v.tableFree = true)
    (hrun : q.run s t = .ok out) :
    ∃ keyColumns parts,
      (q.groups.mapM fun p => do
        expandKey selection.rows.length (← p.expr.eval (s.within selection))) = .ok keyColumns ∧
      (keyedRows selection keyColumns).map (·.2) = selection.rows ∧
      IsPartition (List.Forall₂ fun v w => v.sameKey w = true)
        (keyedRows selection keyColumns) parts ∧
      List.Forall₂ (GroupRow q s t.columns) parts out.rows := by
  have hcolumns : selection.columns = t.columns := Selection.filterAll_columns hfilters
  have hgroup : group selection (computedFrom s 0 q.groups)
      (computedFrom s q.groups.length q.projections) = .ok out := by
    rw [Query.run_eq, hfilters, Except.ok_bind, Query.finish,
      if_neg (by simpa using hgroups)] at hrun
    exact hrun
  obtain ⟨keyColumns, hkeys, hrows⟩ := group_eq_ok hgroup
  have hexpanded : (q.groups.mapM fun p => do
      expandKey selection.rows.length (← p.expr.eval (s.within selection))) = .ok keyColumns := by
    rw [← hkeys]
    exact (mapM_computedFrom s 0 q.groups selection
      (· >>= expandKey selection.rows.length)).symm
  have hcolumn : ∀ column ∈ keyColumns, column.length = selection.rows.length ∧
      ∀ v ∈ column, v.tableFree = true := by
    refine Except.forall_mem_of_mapM hexpanded ?_
    intro p hp column hcolumn
    obtain ⟨v, hv, hexpand⟩ := Except.bind_eq_ok_iff.mp hcolumn
    exact ⟨expandKey_length hexpand, expandKey_tableFree hexpand (hfree p hp v hv)⟩
  refine ⟨keyColumns, _, hexpanded, map_snd_keyedRows fun column h => (hcolumn column h).1,
    keyedRows_isPartition fun column h => (hcolumn column h).2, ?_⟩
  rw [List.forall₂_map_left_iff]
  refine hrows.imp ?_
  intro c row hrow
  rw [hcolumns, map_fst_computedFrom] at hrow
  exact groupRow_of_ok hrow

/-- `select by sym from trade` -/
theorem group_partitions_trade :
    let q : Query := ⟨[], [⟨none, .name "sym"⟩], "trade", []⟩
    let s := Scope.global .empty .computed
    ∃ out keyColumns parts, q.run s Sample.trade = .ok out ∧ out.rows.length = 2 ∧
      IsPartition (List.Forall₂ fun v w => v.sameKey w = true)
        (keyedRows (Selection.ofTable Sample.trade) keyColumns) parts ∧
      List.Forall₂ (GroupRow q s Sample.trade.columns) parts out.rows := by
  intro q s
  have hcount : ((q.run s Sample.trade).map fun out => out.rows.length).toOption = some 2 := by
    decide +kernel
  have hfree : ∀ p ∈ q.groups, ∀ v,
      p.expr.eval (s.within (Selection.ofTable Sample.trade)) = .ok v → v.tableFree = true := by
    intro p hp v hv
    obtain rfl := List.mem_singleton.mp hp
    have hsym : (((Expr.name "sym").eval (s.within (Selection.ofTable Sample.trade))).map
        Value.tableFree).toOption = some true := by decide +kernel
    rw [hv] at hsym
    exact Option.some.inj hsym
  cases hrun : q.run s Sample.trade with
  | error e =>
    rw [hrun] at hcount
    cases hcount
  | ok out =>
    rw [hrun] at hcount
    obtain ⟨keyColumns, parts, -, -, hparts, hrows⟩ := group_partitions (by simp [q]) rfl hfree hrun
    exact ⟨out, keyColumns, parts, rfl, Option.some.inj hcount, hparts, hrows⟩

end TableConsole
