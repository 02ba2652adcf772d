import TableConsole.Proofs.Eval.Partition
import TableConsole.Proofs.Eval.RowNumbers

/-! # Filters in two steps

A query over the table that the first filters leave is the query with all filters over the whole
table, as long as the second step does not see that its rows are numbered anew. Every stage of a
query reads a selection through its table: the filters keep the same rows, and the projections and
groups come out the same, errors included.
-/

namespace TableConsole

set_option autoImplicit false

variable {s : Scope} {A B : Selection}

theorem Selection.map_fst_kept (rows : List (List Value × Nat)) (flags : List Value) :
    (((rows.zip flags).filter (·.2.truthy)).map (·.1)).map (·.1) =
      (((rows.map (·.1)).zip flags).filter (·.2.truthy)).map (·.1) := by
  rw [List.zip_map_left, List.filter_map, List.map_map, List.map_map]
  rfl

theorem Selection.keep_eq (h : A.table = B.table) (v : Value) :
    (A.keep v).map Selection.table = (B.keep v).map Selection.table := by
  have hcolumns := Selection.columns_eq h
  have hrows := Selection.rows_eq h
  have hlength := Selection.length_eq h
  cases v with
  | list flags =>
    unfold Selection.keep
    rw [hlength]
    by_cases hflags : flags.length = B.rows.length
    · simp only [if_pos hflags, Except.map, Selection.table, Selection.map_fst_kept, hcolumns, hrows]
    · simp only [if_neg hflags]
  | atom | table | function =>
    simp only [Selection.keep, Except.map]
    split
    · rw [h]
    · simp only [Selection.table, hcolumns]

theorem Selection.filter_eq (h : A.table = B.table) {e : Expr} (he : NumberFree A.columns e) :
    (A.filter s e).map Selection.table = (B.filter s e).map Selection.table := by
  unfold Selection.filter
  rw [Expr.eval_eq h e he]
  cases e.eval (s.within B) with
  | error => rfl
  | ok v => exact Selection.keep_eq h v

theorem Selection.keep_columns {v : Value} (h : A.keep v = .ok B) : B.columns = A.columns := by
  cases v with
  | list flags =>
    rw [Selection.keep] at h
    split at h
    · cases h
      rfl
    · cases h
  | atom | table | function =>
    obtain rfl := Except.ok.inj h
    split <;> rfl

theorem Selection.filter_columns {e : Expr} (h : A.filter s e = .ok B) : B.columns = A.columns := by
  obtain ⟨v, -, hkeep⟩ := Except.bind_eq_ok_iff.mp h
  exact Selection.keep_columns hkeep

theorem Selection.filterAll_cons (A : Selection) (s : Scope) (e : Expr) (es : List Expr) :
    A.filterAll s (e :: es) = A.filter s e >>= fun B => B.filterAll s es := by
  unfold Selection.filterAll
  rw [List.foldlM_cons]

theorem Selection.filterAll_append (A : Selection) (s : Scope) (es fs : List Expr) :
    A.filterAll s (es ++ fs) = A.filterAll s es >>= fun B => B.filterAll s fs := by
  unfold Selection.filterAll
  rw [List.foldlM_append]

theorem Selection.filterAll_columns {es : List Expr} (h : A.filterAll s es = .ok B) :
    B.columns = A.columns := by
  induction es generalizing A with
  | nil =>
    cases h
    rfl
  | cons e es ih =>
    rw [Selection.filterAll_cons] at h
    obtain ⟨C, hfilter, hrest⟩ := Except.bind_eq_ok_iff.mp h
    exact (ih hrest).trans (Selection.filter_columns hfilter)

theorem Selection.filterAll_eq (h : A.table = B.table) {es : List Expr}
    (hes : ∀ e ∈ es, NumberFree A.columns e) :
    (A.filterAll s es).map Selection.table = (B.filterAll s es).map Selection.table := by
  induction es generalizing A B with
  | nil => exact congrArg Except.ok h
  | cons e es ih =>
    obtain ⟨he, hes⟩ := List.forall_mem_cons.mp hes
    rw [Selection.filterAll_cons, Selection.filterAll_cons, Except.map_bind, Except.map_bind]
    refine Except.bind_eq_of_map Selection.table (Selection.filter_eq h he) ?_
    intro A' B' hA' _ hsame
    exact ih hsame (by rwa [Selection.filter_columns hA'])

theorem partitions_eq (h : A.table = B.table) (keyColumns : List (List Value)) :
    (partitions A keyColumns).map (fun part => (part.1, part.2.map (·.1))) =
      (partitions B keyColumns).map fun part => (part.1, part.2.map (·.1)) := by
  unfold partitions
  rw [← partition_map, ← partition_map, Selection.length_eq h]
  have hzip (keys : List (List Value)) (rows : List (List Value × Nat)) :
      ((keys.zip rows).map fun item => (item.1, item.2.1)) = keys.zip (rows.map (·.1)) := by
    rw [List.zip_map_right]
    rfl
  rw [hzip, hzip, Selection.rows_eq h]

/-- A computed column is the same over the same rows under other numbers. -/
def Computed.NumberFree (columns : List String) (c : Computed) : Prop :=
  ∀ A B : Selection, A.columns = columns → A.table = B.table → c.2 A = c.2 B

theorem computedFrom_numberFree {columns : List String} {ps : List Projection}
    (h : ∀ p ∈ ps, NumberFree columns p.expr) (s : Scope) (start : Nat) :
    ∀ c ∈ computedFrom s start ps, Computed.NumberFree columns c := by
  intro c hc A B hA hsame
  obtain ⟨⟨p, position⟩, hp, rfl⟩ := List.mem_map.mp hc
  exact Expr.eval_eq hsame p.expr (hA ▸ h p (List.fst_mem_of_mem_zipIdx hp))

theorem results_eq {results : List Computed}
    (hresults : ∀ c ∈ results, Computed.NumberFree A.columns c) (h : A.table = B.table) :
    List.Forall₂ (fun c d : Computed => c.2 A = d.2 B) results results :=
  List.forall₂_same.mpr fun c hc => hresults c hc A B rfl h

theorem carriedCells_eq (carried : List (String × Nat)) {rows rows' : List (List Value × Nat)}
    (h : rows.map (·.1) = rows'.map (·.1)) :
    carriedCells carried rows = carriedCells carried rows' := by
  have hlast : rows.getLast?.map (·.1) = rows'.getLast?.map (·.1) := by
    rw [← List.getLast?_map, ← List.getLast?_map, h]
  unfold carriedCells
  cases hrow : rows.getLast? with
  | none =>
    rw [hrow, Option.map_none, eq_comm, Option.map_eq_none_iff] at hlast
    rw [hlast]
  | some row =>
    rw [hrow, Option.map_some, eq_comm, Option.map_eq_some_iff] at hlast
    obtain ⟨row', hrow', hcells⟩ := hlast
    simp only [hrow', hcells]

theorem groupRow_eq {columns : List String} {results : List Computed}
    (hresults : ∀ c ∈ results, Computed.NumberFree columns c) (carried : List (String × Nat))
    (key : List Value) {members members' : List (List Value × Nat)}
    (h : members.map (·.1) = members'.map (·.1)) :
    groupRow columns carried results key members = groupRow columns carried results key members' := by
  have htable : (Selection.mk columns members).table = (Selection.mk columns members').table :=
    congrArg (Table.mk columns) h
  unfold groupRow
  rw [carriedCells_eq carried h, Except.mapM_eq_of_forall₂ (results_eq hresults htable)]

theorem group_eq (h : A.table = B.table) {keys results : List Computed}
    (hkeys : ∀ c ∈ keys, Computed.NumberFree A.columns c)
    (hresults : ∀ c ∈ results, Computed.NumberFree A.columns c) :
    group A keys results = group B keys results := by
  have hcolumns := Selection.columns_eq h
  have hkeyColumns : keys.mapM (keyColumn A) = keys.mapM (keyColumn B) := by
    refine Except.mapM_eq_of_forall₂ ((results_eq hkeys h).imp ?_)
    intro c d hcell
    unfold keyColumn
    rw [hcell, Selection.length_eq h]
  unfold group
  rw [hkeyColumns]
  refine bind_congr fun keyColumns => ?_
  have hparts := partitions_eq h keyColumns
  rw [← List.forall₂_eq_eq_eq, List.forall₂_map_left_iff, List.forall₂_map_right_iff] at hparts
  dsimp only
  rw [← hcolumns]
  congr 1
  refine Except.mapM_eq_of_forall₂ (hparts.imp ?_)
  rintro ⟨key, members⟩ ⟨key', members'⟩ hpart
  obtain ⟨rfl, hmembers⟩ := Prod.mk.inj hpart
  exact groupRow_eq hresults _ key hmembers

theorem project_eq (h : A.table = B.table) {results : List Computed}
    (hresults : ∀ c ∈ results, Computed.NumberFree A.columns c) :
    project A results = project B results := by
  unfold project
  rw [h]
  congr 2
  refine Except.mapM_eq_of_forall₂ (List.forall₂_same.mpr ?_)
  intro c hc
  simp only [hresults c hc A B rfl h]

/-- The table of the rows that the filters left. -/
def Query.finish (q : Query) (s : Scope) (A : Selection) : Except EvalError (Table Value) :=
  if q.groups.isEmpty then project A (computedFrom s 0 q.projections)
  else group A (computedFrom s 0 q.groups) (computedFrom s q.groups.length q.projections)

theorem Query.run_eq (q : Query) (s : Scope) (t : Table Value) :
    q.run s t = (Selection.ofTable t).filterAll s q.filters >>= q.finish s :=
  rfl

theorem Query.finish_eq {q : Query} (h : A.table = B.table)
    (hprojections : ∀ p ∈ q.projections, NumberFree A.columns p.expr)
    (hgroups : ∀ p ∈ q.groups, NumberFree A.columns p.expr) : q.finish s A = q.finish s B := by
  have hresults := computedFrom_numberFree hprojections s
  have hkeys := computedFrom_numberFree hgroups s
  unfold Query.finish
  rw [project_eq h (hresults 0), group_eq h (hkeys 0) (hresults q.groups.length)]

theorem Query.run_filters_append {projections groups : List Projection} {first second : List Expr}
    {t : Table Value} (hsecond : ∀ e ∈ second, NumberFree t.columns e)
    (hprojections : ∀ p ∈ projections, NumberFree t.columns p.expr)
    (hgroups : ∀ p ∈ groups, NumberFree t.columns p.expr) (source : String) (s : Scope) :
    (Query.mk projections groups source (first ++ second)).run s t = (do
      let left ← (Query.mk [] [] source first).run s t
      (Query.mk projections groups source second).run s left) := by
  rw [Query.run_eq, Query.run_eq, Selection.filterAll_append, bind_assoc, bind_assoc]
  cases hA : (Selection.ofTable t).filterAll s first with
  | error e => rfl
  | ok A =>
    have hcolumns : A.columns = t.columns := Selection.filterAll_columns hA
    -- The two selections differ in their row numbers only.
    have htable : A.table = (Selection.ofTable A.table).table := (Selection.table_ofTable _).symm
    rw [← hcolumns] at hsecond hprojections hgroups
    have hfilters := Selection.filterAll_eq (s := s) htable hsecond
    refine Except.bind_eq_of_map Selection.table hfilters ?_
    intro A' B' hA' _ hsame
    have hcolumns' : A'.columns = A.columns := Selection.filterAll_columns hA'
    rw [← hcolumns'] at hprojections hgroups
    exact Query.finish_eq hsame hprojections hgroups

/-- `select max price by sym from trade where i > 0, size < 180` -/
theorem Query.run_filters_append_trade :
    let later : Expr := .binary (.elementwise (.compare .greater)) (.name "i") (.literal (.number 0))
    let small : Expr :=
      .binary (.elementwise (.compare .less)) (.name "size") (.literal (.number 180))
    let best : Projection := ⟨none, .apply "max" [.name "price"]⟩
    let symbol : Projection := ⟨none, .name "sym"⟩
    let s := Scope.global .empty .computed
    (Query.mk [best] [symbol] "trade" ([later] ++ [small])).run s Sample.trade = (do
      let left ← (Query.mk [] [] "trade" [later]).run s Sample.trade
      (Query.mk [best] [symbol] "trade" [small]).run s left) :=
  Query.run_filters_append (by decide) (by decide) (by decide) "trade" _

end TableConsole
