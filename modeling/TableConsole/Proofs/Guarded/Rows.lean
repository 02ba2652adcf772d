import TableConsole.Proofs.Session.WellFormed
import TableConsole.Proofs.Guarded.Basic

/-! # Guarded rows

Rows of a table are picked by their numbers, and cells are read at the number of a row and the place
of a column. Keys are read at the places of the picked rows, a group at its last member. What a
selection holds are the rows with the picked numbers, so that the same cells are read off it.
-/

namespace TableConsole.Guarded

set_option autoImplicit false

structure Picked where
  table : Table Value
  numbers : List Nat

abbrev Column := String × (Picked → Except (Halt EvalError) Value)

def Picked.all (t : Table Value) : Picked :=
  ⟨t, List.range t.rows.length⟩

def cell? (t : Table Value) (number index : Nat) : Option Value :=
  t.rows[number]?.bind (·[index]?)

def Picked.column (p : Picked) (index : Nat) : Option (List Value) :=
  p.numbers.mapM (cell? p.table · index)

def Picked.rows (p : Picked) : Option (Table Value) :=
  (p.numbers.mapM (p.table.rows[·]?)).map (Table.mk p.table.columns)

/-- The rows that pass a filter. -/
def Picked.keep (p : Picked) : Value → Except (Halt EvalError) Picked
  | .list flags =>
    if flags.length = p.numbers.length then
      .ok ⟨p.table, ((p.numbers.zip flags).filter (·.2.truthy)).map (·.1)⟩
    else .error (.error (.length p.numbers.length flags.length))
  | v => .ok (if v.truthy then p else ⟨p.table, []⟩)

def keyColumn (p : Picked) (key : Column) : Except (Halt EvalError) (List Value) := do
  lift (expandKey p.numbers.length (← key.2 p))

/-- The numbers of rows, each with the key at its place. -/
def keyed? (keyColumns : List (List Value)) (numbers : List Nat) :
    Option (List (List Value × Nat)) :=
  numbers.zipIdx.mapM fun (number, position) =>
    (keyColumns.mapM (·[position]?)).map (·, number)

/-- Those of the columns at the given places that no key is named after. -/
def unkeyed? (columns keyNames : List String) : List Nat → Option (List Nat)
  | [] => some []
  | index :: indices =>
    columns[index]?.bind fun name =>
      (unkeyed? columns keyNames indices).map fun rest =>
        if keyNames.contains name then rest else index :: rest

def carried? (columns keyNames : List String) (results : List Column) : Option (List Nat) :=
  if results.isEmpty then unkeyed? columns keyNames (List.range columns.length) else some []

def carriedCells? (t : Table Value) (carried members : List Nat) : Option (List Value) :=
  match members.getLast? with
  | some last => carried.mapM (cell? t last)
  | none => some []

def groupRow (t : Table Value) (carried : List Nat) (results : List Column) (key : List Value)
    (members : List Nat) : Except (Halt EvalError) (List Value) := do
  let cells ← within (carriedCells? t carried members)
  let values ← results.mapM fun (_, f) => f ⟨t, members⟩
  .ok (key ++ cells ++ values)

def group (p : Picked) (keys results : List Column) : Except (Halt EvalError) (Table Value) := do
  let keyColumns ← keys.mapM (keyColumn p)
  let items ← within (keyed? keyColumns p.numbers)
  let keyNames := keys.map (·.1)
  let carried ← within (carried? p.table.columns keyNames results)
  let carriedNames ← within (carried.mapM (p.table.columns[·]?))
  let rows ← (partition sameKeys items).mapM fun (key, members) =>
    groupRow p.table carried results key members
  lift (ofDefective (Table.ofRows (keyNames ++ carriedNames ++ results.map (·.1)) rows))

/-- The selection holds the picked rows of a table that is well formed. -/
structure Picked.Selects (p : Picked) (A : Selection) : Prop where
  columns : A.columns = p.table.columns
  numbers : A.rows.map (·.2) = p.numbers
  rows : ∀ row ∈ A.rows, p.table.rows[row.2]? = some row.1
  wellFormed : Invariant.wellFormed.onSelection A

theorem within_getElem?_faithful {row : List Value} {index : Nat} (h : index < row.length) :
    Faithful (within row[index]?) (cell row index) := by
  have hcell : row[index]? = some row[index] := List.getElem?_eq_getElem h
  rw [hcell, cell_eq_ok_iff.mpr hcell]
  exact .ok row[index]

section Selects

variable {p : Picked} {A : Selection}

theorem selects_all {t : Table Value} (h : (Value.table t).WellFormed) :
    (Picked.all t).Selects (Selection.ofTable t) where
  columns := rfl
  numbers := (List.zipIdx_map_snd 0 t.rows).trans (List.range_eq_range' (n := t.rows.length)).symm
  rows _ hrow := List.mem_zipIdx_iff_getElem?.mp hrow
  wellFormed := Invariant.onSelection_ofTable h

namespace Picked.Selects

theorem length_eq (h : p.Selects A) : p.numbers.length = A.rows.length := by
  rw [← h.numbers, List.length_map]

theorem width (h : p.Selects A) {row : List Value × Nat} (hrow : row ∈ A.rows) :
    row.1.length = A.columns.length :=
  ((Invariant.wellFormed.value_table A.table).mp h.wellFormed).1.2 row.1 (List.mem_map_of_mem hrow)

theorem subset (h : p.Selects A) {members : List (List Value × Nat)} (hmembers : members ⊆ A.rows) :
    (Picked.mk p.table (members.map (·.2))).Selects ⟨A.columns, members⟩ where
  columns := h.columns
  numbers := rfl
  rows row hrow := h.rows row (hmembers hrow)
  wellFormed := h.wellFormed.subset rfl hmembers

theorem cell_faithful (h : p.Selects A) {row : List Value × Nat} (hrow : row ∈ A.rows) {index : Nat}
    (hindex : index < A.columns.length) :
    Faithful (within (cell? p.table row.2 index)) (cell row.1 index) := by
  rw [cell?, h.rows row hrow, Option.bind_some]
  exact within_getElem?_faithful (h.width hrow ▸ hindex)

theorem column_faithful (h : p.Selects A) {index : Nat} (hindex : index < A.columns.length) :
    Faithful (within (p.column index)) (A.column index) := by
  rw [Picked.column, within_mapM, Selection.column, ← h.numbers]
  refine Faithful.mapM (List.forall₂_map_left_iff.mpr (List.forall₂_same.mpr fun row hrow => ?_))
  exact h.cell_faithful hrow hindex

theorem rows_eq (h : p.Selects A) : p.rows = some A.table := by
  have hrows : p.numbers.mapM (p.table.rows[·]?) = some (A.rows.map (·.1)) := by
    rw [← h.numbers, List.mapM_map]
    exact Option.mapM_eq_some h.rows
  rw [Picked.rows, hrows, Option.map_some, ← h.columns]
  rfl

theorem keep_bind (h : p.Selects A) (v : Value) {α : Type}
    {k : Picked → Except (Halt EvalError) α} {f : Selection → Except EvalError α}
    (hk : ∀ q B, q.Selects B → Faithful (k q) (f B)) :
    Faithful (p.keep v >>= k) (A.keep v >>= f) := by
  cases v with
  | list flags =>
    rw [Picked.keep, Selection.keep, h.length_eq]
    split
    · rename_i hlength
      have hkept : ((p.numbers.zip flags).filter (·.2.truthy)).map (·.1) =
          (((A.rows.zip flags).filter (·.2.truthy)).map (·.1)).map (·.2) := by
        rw [← h.numbers, List.zip_map_left, List.filter_map, List.map_map, List.map_map]
        rfl
      have hrows := Selection.keep_rows_subset (A := A) (v := .list flags) (if_pos hlength)
      refine hk _ _ ?_
      rw [hkept]
      exact h.subset hrows
    · exact .error rfl
  | atom | table | function =>
    refine hk _ _ ?_
    split
    · exact h
    · exact h.subset (List.nil_subset A.rows)

end Picked.Selects

/-- What a column of results gives, for whatever rows are picked. -/
structure Column.Computes (c : Column) (k : Computed) : Prop where
  name : c.1 = k.1
  faithful : ∀ p A, p.Selects A → Faithful (c.2 p) (k.2 A)

theorem proper_expandKey (height : Nat) (v : Value) : isProper (expandKey height v) := by
  cases v with
  | list items =>
    rw [expandKey]
    split <;> rfl
  | atom | table | function => rfl

theorem keyColumn_faithful {c : Column} {k : Computed} (h : p.Selects A) (hc : c.Computes k) :
    Faithful (keyColumn p c) (TableConsole.keyColumn A k) := by
  refine (hc.faithful p A h).bind fun v _ => ?_
  rw [h.length_eq]
  exact .of_proper (proper_expandKey _ v)

theorem mapM_getElem? {α : Type} {height position : Nat} {columns : List (List α)}
    (h : ∀ column ∈ columns, column.length = height) (hposition : position < height) :
    columns.mapM (·[position]?) = (Table.transpose height columns)[position]? := by
  induction columns with
  | nil =>
    rw [Table.transpose, List.getElem?_replicate, if_pos hposition]
    rfl
  | cons column columns ih =>
    obtain ⟨hcolumn, hcolumns⟩ := List.forall_mem_cons.mp h
    rw [Table.transpose, List.getElem?_zipWith, List.mapM_cons, ih hcolumns]
    cases column[position]? with
    | none => rfl
    | some v => cases (Table.transpose height columns)[position]? <;> rfl

/-- Every place among the picked rows is a place in every key column. -/
theorem keyed?_eq {keyColumns : List (List Value)} {numbers : List Nat}
    (h : ∀ column ∈ keyColumns, column.length = numbers.length) :
    keyed? keyColumns numbers =
      some ((Table.transpose numbers.length keyColumns).zip numbers) := by
  have hlength := Table.length_transpose h
  refine mapM_zipIdx_eq_some (by simp [hlength]) fun (number, position) hx => ?_
  have hnumber : numbers[position]? = some number := List.mem_zipIdx_iff_getElem?.mp hx
  obtain ⟨hposition, -⟩ := List.getElem?_eq_some_iff.mp hnumber
  obtain ⟨key, hkey⟩ : ∃ key, (Table.transpose numbers.length keyColumns)[position]? = some key :=
    ⟨_, List.getElem?_eq_getElem (hlength.symm ▸ hposition)⟩
  have hitem : ((Table.transpose numbers.length keyColumns).zip numbers)[position]? =
      some (key, number) :=
    List.getElem?_zip_eq_some.mpr ⟨hkey, hnumber⟩
  dsimp only
  rw [mapM_getElem? h hposition, hkey, hitem]
  rfl

theorem unkeyed?_eq {columns : List String} (keyNames : List String) {cs : List (String × Nat)}
    (h : ∀ c ∈ cs, columns[c.2]? = some c.1) :
    unkeyed? columns keyNames (cs.map (·.2)) =
      some ((cs.filter fun c => !keyNames.contains c.1).map (·.2)) := by
  induction cs with
  | nil => rfl
  | cons c cs ih =>
    obtain ⟨hc, hcs⟩ := List.forall_mem_cons.mp h
    rw [List.map_cons, unkeyed?, hc, ih hcs, List.filter_cons]
    dsimp only [Option.bind_some, Option.map_some]
    cases keyNames.contains c.1 <;> rfl

theorem getElem?_of_mem_carried {columns keyNames : List String} {results : List Computed} :
    ∀ c ∈ carried columns keyNames results, columns[c.2]? = some c.1 := by
  intro c hc
  unfold carried at hc
  split at hc
  · exact List.mem_zipIdx_iff_getElem?.mp (List.mem_of_mem_filter hc)
  · cases hc

theorem carried?_eq (columns keyNames : List String) {results : List Column}
    {results' : List Computed} (h : results.isEmpty = results'.isEmpty) :
    carried? columns keyNames results = some ((carried columns keyNames results').map (·.2)) := by
  unfold carried? carried
  rw [h]
  split
  · rw [List.range_eq_range', ← List.zipIdx_map_snd 0 columns]
    exact unkeyed?_eq keyNames fun c hc => List.mem_zipIdx_iff_getElem?.mp hc
  · rfl

theorem carriedNames_eq (columns keyNames : List String) (results : List Computed) :
    ((carried columns keyNames results).map (·.2)).mapM (columns[·]?) =
      some ((carried columns keyNames results).map (·.1)) := by
  rw [List.mapM_map]
  exact Option.mapM_eq_some getElem?_of_mem_carried

theorem carriedCells_faithful (h : p.Selects A) {cs : List (String × Nat)}
    (hcs : ∀ c ∈ cs, A.columns[c.2]? = some c.1) :
    Faithful (within (carriedCells? p.table (cs.map (·.2)) p.numbers)) (carriedCells cs A.rows) := by
  rw [carriedCells?, ← h.numbers, List.getLast?_map, carriedCells]
  cases hlast : A.rows.getLast? with
  | none => exact .ok []
  | some row =>
    dsimp only [Option.map_some]
    rw [within_mapM]
    refine Faithful.mapM (List.forall₂_map_left_iff.mpr (List.forall₂_same.mpr fun c hc => ?_))
    obtain ⟨hindex, -⟩ := List.getElem?_eq_some_iff.mp (hcs c hc)
    exact h.cell_faithful (List.mem_of_getLast? hlast) hindex

variable {keys results : List Column} {keys' results' : List Computed}

theorem isEmpty_eq_of_forall₂ {α β : Type} {R : α → β → Prop} {xs : List α} {ys : List β}
    (h : List.Forall₂ R xs ys) : xs.isEmpty = ys.isEmpty := by
  cases h <;> rfl

theorem names_eq (h : List.Forall₂ Column.Computes keys keys') :
    keys.map (·.1) = keys'.map (·.1) := by
  induction h with
  | nil => rfl
  | cons hc _ ih => rw [List.map_cons, List.map_cons, hc.name, ih]

theorem groupRow_faithful (h : p.Selects A) (hresults : List.Forall₂ Column.Computes results results')
    {cs : List (String × Nat)} (hcs : ∀ c ∈ cs, A.columns[c.2]? = some c.1) (key : List Value) :
    Faithful (groupRow p.table (cs.map (·.2)) results key p.numbers)
      (TableConsole.groupRow A.columns cs results' key A.rows) := by
  refine (carriedCells_faithful h hcs).bind fun cells _ => ?_
  refine Faithful.bind (Faithful.mapM (hresults.imp fun c k hc => hc.faithful _ _ h)) fun values _ => ?_
  exact .ok _

theorem proper_ofDefective {α : Type} (r : Except TableDefect (Table α)) :
    isProper (ofDefective r) := by
  cases r with
  | ok t => rfl
  | error d => cases d <;> rfl

theorem group_faithful (h : p.Selects A) (hkeys : List.Forall₂ Column.Computes keys keys')
    (hresults : List.Forall₂ Column.Computes results results') :
    Faithful (group p keys results) (TableConsole.group A keys' results') := by
  refine Faithful.bind (Faithful.mapM (hkeys.imp fun c k hc => keyColumn_faithful h hc)) ?_
  intro keyColumns hkeyColumns
  have hcolumns : ∀ column ∈ keyColumns, column.length = p.numbers.length := by
    rw [h.length_eq]
    refine Except.forall_mem_of_mapM hkeyColumns fun k _ column hcolumn => ?_
    obtain ⟨v, -, hexpand⟩ := Except.bind_eq_ok_iff.mp hcolumn
    exact expandKey_length hexpand
  have hitems : (Table.transpose p.numbers.length keyColumns).zip p.numbers =
      (keyedRows A keyColumns).map fun item => (item.1, item.2.2) := by
    rw [keyedRows, h.length_eq, ← h.numbers, List.zip_map_right]
    rfl
  have hcells : ∀ c ∈ carried A.columns (keys'.map (·.1)) results', A.columns[c.2]? = some c.1 :=
    getElem?_of_mem_carried
  dsimp only
  rw [keyed?_eq hcolumns, hitems, names_eq hkeys, names_eq hresults, ← h.columns,
    carried?_eq _ _ (isEmpty_eq_of_forall₂ hresults), within_some, Except.ok_bind, within_some,
    Except.ok_bind, carriedNames_eq, within_some, Except.ok_bind, partition_map]
  refine Faithful.bind (Faithful.mapM ?_) fun rows _ => .of_proper (proper_ofDefective _)
  refine List.forall₂_map_left_iff.mpr (List.forall₂_same.mpr fun part hpart => ?_)
  obtain ⟨-, hmembers⟩ := mem_partitions hpart
  exact groupRow_faithful (h.subset hmembers) hresults hcells part.1

end Selects

end TableConsole.Guarded
