import Mathlib.Data.List.Basic
import TableConsole.Value.Table

/-! # Tables column by column

A well-formed table is made from its columns one by one: in front of every row stands one cell of
the first column. So a table is put together from its columns again.
-/

namespace TableConsole.Table

set_option autoImplicit false

variable {α β : Type}

def map (f : α → β) (t : Table α) : Table β :=
  ⟨t.columns, t.rows.map (List.map f)⟩

/-- The columns, each with its cells from top to bottom. -/
def byColumn (t : Table α) : List (String × List α) :=
  t.columns.map fun name => (name, (t.column? name).getD [])

def consCells (cells : List (α × List α)) : List (List α) :=
  cells.map fun p => p.1 :: p.2

inductive Columnwise : Table α → Prop
  | empty (height : Nat) : Columnwise ⟨[], List.replicate height []⟩
  | cons {name : String} {names : List String} {cells : List (α × List α)} :
    name ∉ names → Columnwise ⟨names, cells.map (·.2)⟩ →
      Columnwise ⟨name :: names, consCells cells⟩

theorem exists_consCells {width : Nat} {rows : List (List α)}
    (h : ∀ row ∈ rows, row.length = width + 1) : ∃ cells, rows = consCells cells := by
  induction rows with
  | nil => exact ⟨[], rfl⟩
  | cons row rows ih =>
    obtain ⟨hrow, hrows⟩ := List.forall_mem_cons.mp h
    obtain ⟨a, row, rfl⟩ := List.exists_cons_of_length_eq_add_one hrow
    obtain ⟨cells, rfl⟩ := ih hrows
    exact ⟨(a, row) :: cells, rfl⟩

theorem WellFormed.columnwise {t : Table α} (h : t.WellFormed) : Columnwise t := by
  obtain ⟨names, rows⟩ := t
  obtain ⟨hnodup, hrows⟩ := h
  dsimp only at hnodup hrows
  induction names generalizing rows with
  | nil =>
    have hempty : rows = List.replicate rows.length [] :=
      List.eq_replicate_iff.mpr ⟨rfl, fun row hrow => List.length_eq_zero_iff.mp (hrows row hrow)⟩
    rw [hempty]
    exact .empty rows.length
  | cons name names ih =>
    obtain ⟨hname, hnodup⟩ := List.nodup_cons.mp hnodup
    obtain ⟨cells, rfl⟩ := exists_consCells hrows
    have hrest : ∀ row ∈ cells.map (·.2), row.length = names.length := by
      rw [consCells, List.forall_mem_map] at hrows
      exact List.forall_mem_map.mpr fun p hp => Nat.succ.inj (hrows p hp)
    exact .cons hname (ih _ hnodup hrest)

theorem cells?_consCells_zero (cells : List (α × List α)) :
    cells? (consCells cells) 0 = some (cells.map (·.1)) := by
  induction cells with
  | nil => rfl
  | cons p cells ih =>
    rw [cells?, consCells] at ih ⊢
    rw [List.map_cons, List.mapM_cons, ih]
    rfl

theorem cells?_consCells_succ (cells : List (α × List α)) (index : Nat) :
    cells? (consCells cells) (index + 1) = cells? (cells.map (·.2)) index := by
  simp [cells?, consCells, List.mapM_map, Function.comp_def]

theorem column?_consCells_self (name : String) (names : List String) (cells : List (α × List α)) :
    column? ⟨name :: names, consCells cells⟩ name = some (cells.map (·.1)) := by
  simp [column?, columnIndex?, List.findIdx?_cons, cells?_consCells_zero]

theorem column?_consCells_of_ne {name other : String} (h : name ≠ other) (names : List String)
    (cells : List (α × List α)) :
    column? ⟨name :: names, consCells cells⟩ other =
      column? ⟨names, cells.map (·.2)⟩ other := by
  rw [column?, column?, columnIndex?, columnIndex?, List.findIdx?_cons, beq_eq_false_iff_ne.mpr h]
  cases hindex : names.findIdx? (· == other) with
  | none => rfl
  | some index => exact cells?_consCells_succ cells index

theorem byColumn_consCells {name : String} {names : List String} (h : name ∉ names)
    (cells : List (α × List α)) :
    byColumn ⟨name :: names, consCells cells⟩ =
      (name, cells.map (·.1)) :: byColumn ⟨names, cells.map (·.2)⟩ := by
  have hrest : ∀ other ∈ names, column? ⟨name :: names, consCells cells⟩ other =
      column? ⟨names, cells.map (·.2)⟩ other :=
    fun other hother => column?_consCells_of_ne (ne_of_mem_of_not_mem hother h).symm names cells
  rw [byColumn, List.map_cons, column?_consCells_self, byColumn, Option.getD_some]
  exact congrArg _ (List.map_congr_left fun other hother => by rw [hrest other hother])

theorem map_fst_byColumn (t : Table α) : t.byColumn.map (·.1) = t.columns := by
  simp [byColumn, Function.comp_def]

namespace Columnwise

variable {t : Table α} (h : t.Columnwise)

include h

theorem length_of_mem : ∀ c ∈ t.byColumn, c.2.length = t.rows.length := by
  induction h with
  | empty height => simp [byColumn]
  | cons hname _ ih =>
    rw [byColumn_consCells hname, List.forall_mem_cons]
    simpa [consCells] using ih

theorem exists_row_of_mem : ∀ c ∈ t.byColumn, ∀ a ∈ c.2, ∃ row ∈ t.rows, a ∈ row := by
  induction h with
  | empty height => simp [byColumn]
  | @cons name names cells hname _ ih =>
    rw [byColumn_consCells hname, List.forall_mem_cons]
    constructor
    · intro a ha
      obtain ⟨p, hp, rfl⟩ := List.mem_map.mp ha
      exact ⟨_, List.mem_map_of_mem hp, List.mem_cons_self⟩
    · intro c hc a ha
      obtain ⟨row, hrow, ha⟩ := ih c hc a ha
      obtain ⟨p, hp, rfl⟩ := List.mem_map.mp hrow
      exact ⟨_, List.mem_map_of_mem hp, List.mem_cons_of_mem _ ha⟩

theorem column?_of_mem : ∀ c ∈ t.byColumn, t.column? c.1 = some c.2 := by
  induction h with
  | empty height => simp [byColumn]
  | @cons name names cells hname hrest ih =>
    rw [byColumn_consCells hname, List.forall_mem_cons]
    refine ⟨column?_consCells_self name names cells, fun c hc => ?_⟩
    have hmem : c.1 ∈ names := by
      have hfirst := List.mem_map_of_mem (f := (·.1)) hc
      rwa [map_fst_byColumn] at hfirst
    rw [column?_consCells_of_ne (ne_of_mem_of_not_mem hmem hname).symm]
    exact ih c hc

theorem transpose : Table.transpose t.rows.length (t.byColumn.map (·.2)) = t.rows := by
  induction h with
  | empty height => simp [byColumn, Table.transpose]
  | cons hname _ ih =>
    rw [byColumn_consCells hname, List.map_cons, Table.transpose]
    simp only [consCells, List.length_map] at ih ⊢
    rw [ih, List.zipWith_map, List.zipWith_self]

end Columnwise

theorem ofColumns_byColumn {t : Table α} (h : t.WellFormed) (hne : t.columns ≠ []) :
    ofColumns t.byColumn = .ok t := by
  have hcolumns := h.columnwise
  have hheight : (t.byColumn.head?.map fun c => c.2.length).getD 0 = t.rows.length := by
    obtain ⟨c, cs, hcons⟩ := List.exists_cons_of_ne_nil (show t.byColumn ≠ [] by simpa [byColumn])
    have hlength := hcolumns.length_of_mem c (hcons ▸ List.mem_cons_self)
    simpa [hcons] using hlength
  have hnone : t.byColumn.find? (fun c => c.2.length != t.rows.length) = none := by
    simpa using fun name cells hc => hcolumns.length_of_mem (name, cells) hc
  rw [ofColumns]
  dsimp only
  rw [hheight, hnone, map_fst_byColumn, hcolumns.transpose]
  exact ofRows_eq_ok_iff.mpr ⟨rfl, h⟩

section Transpose

variable {height : Nat} {columns : List (List α)}

theorem length_transpose (h : ∀ column ∈ columns, column.length = height) :
    (transpose height columns).length = height := by
  induction columns with
  | nil => exact List.length_replicate
  | cons column columns ih =>
    obtain ⟨hcolumn, hcolumns⟩ := List.forall_mem_cons.mp h
    rw [transpose, List.length_zipWith, hcolumn, ih hcolumns, Nat.min_self]

theorem mem_column_of_mem_transpose {row : List α} (h : row ∈ transpose height columns)
    {v : α} (hv : v ∈ row) : ∃ column ∈ columns, v ∈ column := by
  induction columns generalizing row with
  | nil =>
    obtain rfl := List.eq_of_mem_replicate h
    cases hv
  | cons column columns ih =>
    rw [transpose, ← List.map_uncurry_zip_eq_zipWith, List.mem_map] at h
    obtain ⟨⟨w, rest⟩, hpair, rfl⟩ := h
    obtain ⟨hw, hrest⟩ := List.of_mem_zip hpair
    obtain rfl | hv := List.mem_cons.mp hv
    · exact ⟨column, List.mem_cons_self, hw⟩
    · obtain ⟨other, hother, hv⟩ := ih hrest hv
      exact ⟨other, List.mem_cons_of_mem column hother, hv⟩

theorem length_of_mem_transpose {row : List α} (h : row ∈ transpose height columns) :
    row.length = columns.length := by
  induction columns generalizing row with
  | nil => exact congrArg List.length (List.eq_of_mem_replicate h)
  | cons column columns ih =>
    rw [transpose, ← List.map_uncurry_zip_eq_zipWith, List.mem_map] at h
    obtain ⟨⟨v, rest⟩, hpair, rfl⟩ := h
    exact congrArg (· + 1) (ih (List.of_mem_zip hpair).2)

end Transpose

/-- The columns that rows are made from are read off them again. -/
theorem byColumn_transpose {height : Nat} {columns : List (String × List α)}
    (hnodup : (columns.map (·.1)).Nodup) (h : ∀ c ∈ columns, c.2.length = height) :
    byColumn ⟨columns.map (·.1), transpose height (columns.map (·.2))⟩ = columns := by
  induction columns with
  | nil => rfl
  | cons c columns ih =>
    obtain ⟨hname, hnodup⟩ := List.nodup_cons.mp hnodup
    obtain ⟨hlength, hlengths⟩ := List.forall_mem_cons.mp h
    have hrows : (transpose height (columns.map (·.2))).length = c.2.length := by
      rw [length_transpose (List.forall_mem_map.mpr hlengths), hlength]
    have hcons : transpose height (c.2 :: columns.map (·.2)) =
        consCells (c.2.zip (transpose height (columns.map (·.2)))) := by
      rw [transpose, consCells, ← List.map_uncurry_zip_eq_zipWith]
      rfl
    rw [List.map_cons, List.map_cons, hcons, byColumn_consCells hname,
      List.map_fst_zip (Nat.le_of_eq hrows.symm), List.map_snd_zip (Nat.le_of_eq hrows),
      ih hnodup hlengths]

theorem ofColumns_eq_ok_iff {columns : List (String × List α)} {t : Table α} :
    ofColumns columns = .ok t ↔
      t.WellFormed ∧ t.byColumn = columns ∧ (columns = [] → t.rows = []) := by
  constructor
  · intro h
    unfold ofColumns at h
    dsimp only at h
    split at h
    · cases h
    · rename_i hnone
      obtain ⟨rfl, hwell⟩ := ofRows_eq_ok_iff.mp h
      refine ⟨hwell, byColumn_transpose hwell.1 fun c hc => ?_, ?_⟩
      · simpa using List.find?_eq_none.mp hnone c hc
      · rintro rfl
        rfl
  · rintro ⟨hwell, rfl, hrows⟩
    by_cases hempty : t.columns = []
    · obtain ⟨names, rows⟩ := t
      obtain rfl : names = [] := hempty
      obtain rfl : rows = [] := hrows rfl
      rfl
    · exact ofColumns_byColumn hwell hempty

theorem exists_ofColumns_iff {columns : List (String × List α)} :
    (∃ t, ofColumns columns = .ok t) ↔
      (columns.map (·.1)).Nodup ∧ ∀ c ∈ columns, ∀ d ∈ columns, c.2.length = d.2.length := by
  constructor
  · rintro ⟨t, h⟩
    obtain ⟨hwell, rfl, -⟩ := ofColumns_eq_ok_iff.mp h
    have hlength := hwell.columnwise.length_of_mem
    rw [map_fst_byColumn]
    exact ⟨hwell.1, fun c hc d hd => (hlength c hc).trans (hlength d hd).symm⟩
  · rintro ⟨hnodup, hlengths⟩
    cases columns with
    | nil => exact ⟨⟨[], []⟩, rfl⟩
    | cons c columns =>
      have hlength : ∀ d ∈ c :: columns, d.2.length = c.2.length :=
        fun d hd => hlengths d hd c List.mem_cons_self
      refine ⟨_, ofColumns_eq_ok_iff.mpr ⟨⟨hnodup, fun row hrow => ?_⟩,
        byColumn_transpose hnodup hlength, nofun⟩⟩
      rw [length_of_mem_transpose hrow, List.length_map, List.length_map]

theorem WellFormed.map {t : Table α} (h : t.WellFormed) (f : α → β) : (t.map f).WellFormed := by
  obtain ⟨hnodup, hrows⟩ := h
  exact ⟨hnodup, List.forall_mem_map.mpr fun row hrow => (List.length_map f).trans (hrows row hrow)⟩

theorem cells?_map (f : α → β) (rows : List (List α)) (index : Nat) :
    cells? (rows.map (List.map f)) index = (cells? rows index).map (List.map f) := by
  induction rows with
  | nil => rfl
  | cons row rows ih =>
    rw [cells?] at ih ⊢
    rw [List.map_cons, List.mapM_cons, List.getElem?_map, ih, cells?, cells?, List.mapM_cons]
    cases row[index]? with
    | none => rfl
    | some a => cases rows.mapM (·[index]?) <;> rfl

theorem byColumn_map (f : α → β) (t : Table α) :
    (t.map f).byColumn = t.byColumn.map fun c => (c.1, c.2.map f) := by
  rw [byColumn, byColumn, List.map_map]
  refine List.map_congr_left fun name _ => ?_
  have hcolumn : (t.map f).column? name = (t.column? name).map (List.map f) := by
    rw [column?, column?, Table.map]
    cases columnIndex? t.columns name with
    | none => rfl
    | some index => exact cells?_map f t.rows index
  rw [hcolumn, Function.comp_apply]
  dsimp only
  cases t.column? name <;> rfl

end TableConsole.Table
