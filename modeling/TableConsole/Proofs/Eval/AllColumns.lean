import TableConsole.Proofs.Eval.Assembly
import TableConsole.Proofs.Eval.GroupBy
import TableConsole.Proofs.Eval.Preservation

/-! # Every column

A query without projections hands over the rows that its filters leave. To name every column takes
these rows apart into columns and puts the columns together again, with the same table.
-/

namespace TableConsole

set_option autoImplicit false

def allColumns (columns : List String) : List Projection :=
  columns.map fun name => ⟨none, .name name⟩

variable {s : Scope} {A : Selection}

theorem mapM_cell_eq_ok {rows : List (List Value)} {index : Nat} {vs : List Value}
    (h : Table.cells? rows index = some vs) : rows.mapM (cell · index) = .ok vs := by
  induction rows generalizing vs with
  | nil => exact congrArg Except.ok (Option.some.inj h)
  | cons row rows ih =>
    rw [Table.cells?, List.mapM_cons] at h
    obtain ⟨v, hv, h⟩ := Option.bind_eq_some_iff.mp h
    obtain ⟨ws, hws, h⟩ := Option.bind_eq_some_iff.mp h
    obtain rfl := Option.some.inj h
    rw [List.mapM_cons, cell_eq_ok_iff.mpr hv, ih hws]
    rfl

theorem Scope.resolve_of_mem (s : Scope) (hwell : A.table.WellFormed) {c : String × List Value}
    (hc : c ∈ A.table.byColumn) : (s.within A).resolve c.1 = .ok (.list c.2) := by
  obtain ⟨index, hindex, hcells⟩ :=
    Option.bind_eq_some_iff.mp (hwell.columnwise.column?_of_mem c hc)
  have hcolumn : A.column index = .ok c.2 :=
    (A.column_eq_mapM_rows index).trans (mapM_cell_eq_ok hcells)
  have hplace : Table.columnIndex? A.columns c.1 = some index := hindex
  rw [Scope.resolve_within, hplace]
  dsimp only
  rw [hcolumn]
  rfl

theorem computedFrom_allColumns (s : Scope) (start : Nat) (names : List String) :
    computedFrom s start (allColumns names) =
      names.map fun name => (name, fun A => (s.within A).resolve name) := by
  induction names generalizing start with
  | nil => rfl
  | cons name names ih => exact congrArg (List.cons _) (ih (start + 1))

theorem columnsOf_lists (columns : List (String × List Value)) :
    columnsOf (columns.map fun c => (c.1, .list c.2)) = columns := by
  rw [columnsOf, List.map_map]
  exact List.map_id columns

theorem assemble_byColumn {t : Table Value} (hwell : t.WellFormed) (hne : t.columns ≠ []) :
    assemble (t.byColumn.map fun c => (c.1, .list c.2)) = .ok t := by
  refine assemble_eq_ok_iff.mpr ⟨List.forall_mem_map.mpr fun c _ => nofun, ?_⟩
  rw [columnsOf_lists]
  exact Table.ofColumns_byColumn hwell hne

theorem project_allColumns (s : Scope) (hwell : A.table.WellFormed) (hne : A.columns ≠ []) :
    project A (computedFrom s 0 (allColumns A.columns)) = .ok A.table := by
  have hresults : computedFrom s 0 (allColumns A.columns) ≠ [] := by
    rw [computedFrom_allColumns]
    simpa using hne
  have hcolumns : ((computedFrom s 0 (allColumns A.columns)).mapM fun c =>
      c.2 A >>= fun v => .ok (c.1, v)) =
        Except.ok (A.table.byColumn.map fun c => (c.1, .list c.2)) := by
    have hnames : A.columns = A.table.byColumn.map (·.1) := A.table.map_fst_byColumn.symm
    rw [computedFrom_allColumns, Except.mapM_eq_ok_iff, hnames, List.map_map,
      List.forall₂_map_left_iff, List.forall₂_map_right_iff, List.forall₂_same]
    intro c hc
    dsimp only [Function.comp_apply]
    rw [s.resolve_of_mem hwell hc]
    rfl
  unfold project
  rw [if_neg (by simpa using hresults)]
  exact (congrArg (· >>= assemble) hcolumns).trans (assemble_byColumn hwell hne)

theorem Selection.table_wellFormed_of_filterAll {t : Table Value} (ht : t.WellFormed)
    {es : List Expr} (h : (Selection.ofTable t).filterAll s es = .ok A) : A.table.WellFormed := by
  have htable : (Selection.ofTable t).table.WellFormed := by rwa [Selection.table_ofTable]
  exact htable.of_subset (Selection.filterAll_columns h)
    (List.map_subset _ (Selection.filterAll_rows_subset h))

/-- No projections are all columns. -/
theorem Query.run_allColumns {t : Table Value} (ht : t.WellFormed) (hne : t.columns ≠ [])
    (source : String) (filters : List Expr) (s : Scope) :
    (Query.mk [] [] source filters).run s t =
      (Query.mk (allColumns t.columns) [] source filters).run s t := by
  rw [Query.run_eq, Query.run_eq]
  cases hA : (Selection.ofTable t).filterAll s filters with
  | error e => rfl
  | ok A =>
    have hcolumns : A.columns = t.columns := Selection.filterAll_columns hA
    rw [← hcolumns] at hne ⊢
    exact (project_allColumns s (Selection.table_wellFormed_of_filterAll ht hA) hne).symm

/-- The columns hide the row numbers and a symbol; a list and a table stand in their cells. -/
theorem Query.run_allColumns_hidden :
    let t : Table Value := ⟨["i", "x"],
      [[.list [.null], .number 3], [.number 0, .table Sample.placeholder], [.null, .text "b"]]⟩
    let s := Scope.global (Symbols.empty.insert "x" (.number 7)) .computed
    let zero : Expr := .binary (.elementwise .equal) (.name "i") (.literal (.number 0))
    let never : Expr := .literal (.boolean false)
    (Query.mk [⟨none, .name "i"⟩, ⟨none, .name "x"⟩] [] "t" [zero]).run s t =
        .ok ⟨["i", "x"], [[.list [.null], .number 3], [.number 0, .table Sample.placeholder]]⟩ ∧
      (Query.mk [⟨none, .name "i"⟩, ⟨none, .name "x"⟩] [] "t" [never]).run s t =
        .ok ⟨["i", "x"], []⟩ := by
  intro t s zero never
  have hwell : t.WellFormed := by decide
  have hne : t.columns ≠ [] := by decide
  exact ⟨(Query.run_allColumns hwell hne "t" [zero] s).symm.trans rfl,
    (Query.run_allColumns hwell hne "t" [never] s).symm.trans rfl⟩

end TableConsole
