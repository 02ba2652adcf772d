import TableConsole.Proofs.Eval.Broadcast
import TableConsole.Proofs.Eval.GroupBy
import TableConsole.Proofs.Value.WellFormed

/-! # Invariants of values

A property of values that evaluation keeps. Where cells and items come from is settled here once for
all such properties: columns and rows become a table only through a check of their shape, rows are
selected whole, and results of built-in functions are atoms, items or cells of what was there.
-/

namespace TableConsole

set_option autoImplicit false

/-- A part has the key of one of its rows, and rows of the selection for its members. -/
theorem mem_partitions {A : Selection} {keyColumns : List (List Value)}
    {part : List Value × List (List Value × Nat)} (h : part ∈ partitions A keyColumns) :
    part.1 ∈ Table.transpose A.rows.length keyColumns ∧ part.2 ⊆ A.rows := by
  unfold partitions at h
  rw [partition_eq_classes] at h
  obtain ⟨c, hc, rfl⟩ := List.mem_map.mp h
  have hmem := (classesWithin_sublist sameKeys _ _ c hc).subset
  refine ⟨(List.of_mem_zip (hmem List.mem_cons_self)).1, ?_⟩
  intro row hrow
  obtain ⟨x, hx, rfl⟩ := List.mem_map.mp hrow
  exact (List.of_mem_zip (hmem hx)).2

theorem Builtin.one_eq_ok {b : Builtin} {args : List Value} {v : Value} (h : b.one args = .ok v) :
    args = [v] := by
  unfold Builtin.one at h
  split at h <;> cases h
  rfl

theorem Builtin.foldlM_better_mem {b : Builtin} {wanted : Ordering} {items : List Value}
    {best v : Value} (h : items.foldlM (fun best item => b.better wanted item best) best = .ok v) :
    v ∈ best :: items := by
  induction items generalizing best with
  | nil =>
    cases h
    exact List.mem_cons_self
  | cons item items ih =>
    rw [List.foldlM_cons] at h
    obtain ⟨next, hnext, h⟩ := Except.bind_eq_ok_iff.mp h
    have hmem : next = item ∨ next = best := by
      unfold Builtin.better at hnext
      split at hnext
      · cases hnext
        split
        · exact .inl rfl
        · exact .inr rfl
      · cases hnext
    have hlast := ih h
    grind

structure Invariant where
  value : Value → Prop
  /-- What holds of the items of a list and of the cells of a table. -/
  inner : Value → Prop
  shape : Table Value → Prop
  inner_of_isAtom : ∀ v, v.isAtom → inner v
  value_of_inner : ∀ v, inner v → value v
  value_list : ∀ items, value (.list items) ↔ ∀ v ∈ items, inner v
  value_table : ∀ t, value (.table t) ↔ shape t ∧ t.Cells inner
  shape_of_wellFormed : ∀ t, t.WellFormed → shape t
  shape_of_subset : ∀ t u, shape t → u.columns = t.columns → u.rows ⊆ t.rows → shape u

namespace Invariant

variable {I : Invariant} {v : Value}

theorem value_of_isAtom (h : v.isAtom) : I.value v :=
  I.value_of_inner v (I.inner_of_isAtom v h)

theorem value_list_map {α : Type} (f : α → Atom) (xs : List α) :
    I.value (.list (xs.map fun x => .atom (f x))) :=
  (I.value_list _).mpr (List.forall_mem_map.mpr fun _ _ => I.inner_of_isAtom _ rfl)

theorem value_of_flat {t : Table Value} (h : t.Flat) : I.value (.table t) :=
  (I.value_table t).mpr ⟨I.shape_of_wellFormed t h.1,
    fun row hrow v hv => I.inner_of_isAtom v (h.2 row hrow v hv)⟩

theorem inner_getD {o : Option Value} (h : ∀ v, o = some v → I.inner v) :
    I.inner (o.getD .null) := by
  cases o with
  | none => exact I.inner_of_isAtom _ rfl
  | some v => exact h v rfl

theorem inner_replicate (height : Nat) (h : I.inner v) :
    ∀ w ∈ List.replicate height v, I.inner w := by
  intro w hw
  rwa [List.eq_of_mem_replicate hw]

theorem inner_columnCells {height : Nat} {c : String × Value} {d : String × List Value}
    (h : columnCells height c = .ok d) (hc : I.value c.2) : ∀ v ∈ d.2, I.inner v := by
  obtain ⟨name, v⟩ := c
  cases v with
  | list items =>
    cases h
    exact (I.value_list items).mp hc
  | table t => cases h
  | atom | function =>
    cases h
    exact inner_replicate height (I.inner_of_isAtom _ rfl)

theorem value_ofColumns {columns : List (String × List Value)} {t : Table Value}
    (hcolumns : ∀ c ∈ columns, ∀ v ∈ c.2, I.inner v) (h : Table.ofColumns columns = .ok t) :
    I.value (.table t) := by
  unfold Table.ofColumns at h
  dsimp only at h
  split at h
  · cases h
  · obtain ⟨rfl, ht⟩ := Table.ofRows_eq_ok_iff.mp h
    refine (I.value_table _).mpr ⟨I.shape_of_wellFormed _ ht, ?_⟩
    intro row hrow v hv
    obtain ⟨cells, hcells, hmem⟩ := Table.mem_column_of_mem_transpose hrow hv
    obtain ⟨c, hc, rfl⟩ := List.mem_map.mp hcells
    exact hcolumns c hc v hmem

theorem value_assemble {columns : List (String × Value)} {t : Table Value}
    (hcolumns : ∀ c ∈ columns, I.value c.2) (h : assemble columns = .ok t) : I.value (.table t) := by
  obtain ⟨cells, hcells, h⟩ := Except.bind_eq_ok_iff.mp h
  refine value_ofColumns ?_ (Except.mapError_eq_ok_iff.mp h)
  exact Except.forall_mem_of_mapM hcells fun c hc d hd => inner_columnCells hd (hcolumns c hc)

def onSelection (I : Invariant) (A : Selection) : Prop :=
  I.value (.table A.table)

def onSymbols (I : Invariant) (symbols : Symbols) : Prop :=
  ∀ name v, symbols.get? name = some v → I.value v

structure OnScope (I : Invariant) (s : Scope) : Prop where
  symbols : I.onSymbols s.symbols
  selection : ∀ A, s.selection = some A → I.onSelection A

section Scopes

variable {s : Scope} {A B : Selection} {t : Table Value}

theorem onSelection_ofTable (h : I.value (.table t)) : I.onSelection (Selection.ofTable t) := by
  rwa [onSelection, Selection.table_ofTable]

theorem onSelection.cells (h : I.onSelection A) {row : List Value × Nat} (hrow : row ∈ A.rows)
    {v : Value} (hv : v ∈ row.1) : I.inner v :=
  ((I.value_table _).mp h).2 row.1 (List.mem_map_of_mem hrow) v hv

theorem onSelection.subset (h : I.onSelection A) (hcolumns : B.columns = A.columns)
    (hrows : B.rows ⊆ A.rows) : I.onSelection B := by
  obtain ⟨hshape, hcells⟩ := (I.value_table _).mp h
  have hmem : B.table.rows ⊆ A.table.rows := List.map_subset _ hrows
  refine (I.value_table _).mpr ⟨I.shape_of_subset _ _ hshape hcolumns hmem, ?_⟩
  exact fun row hrow => hcells row (hmem hrow)

theorem inner_cell {row : List Value} (hrow : ∀ v ∈ row, I.inner v) {index : Nat}
    (h : cell row index = .ok v) : I.inner v :=
  hrow v (List.mem_of_getElem? (cell_eq_ok_iff.mp h))

theorem onSelection.column (h : I.onSelection A) {index : Nat} {vs : List Value}
    (hvs : A.column index = .ok vs) : I.value (.list vs) := by
  refine (I.value_list vs).mpr (Except.forall_mem_of_mapM hvs ?_)
  exact fun row hrow v hv => inner_cell (fun _ => h.cells hrow) hv

theorem onSymbols_empty (I : Invariant) : I.onSymbols Symbols.empty := by
  intro name v h
  cases h

theorem onSymbols.insert {symbols : Symbols} (h : I.onSymbols symbols) (name : String)
    (hv : I.value v) : I.onSymbols (symbols.insert name v) := by
  intro other w hw
  rw [Symbols.get?_insert] at hw
  split at hw
  · cases hw
    exact hv
  · exact h other w hw

theorem onScope_global {symbols : Symbols} (h : I.onSymbols symbols) (mode : Mode) :
    I.OnScope (Scope.global symbols mode) :=
  ⟨h, fun _ hA => nomatch hA⟩

theorem OnScope.within (h : I.OnScope s) (hA : I.onSelection A) : I.OnScope (s.within A) where
  symbols := h.symbols
  selection B hB := by
    cases hB
    exact hA

theorem OnScope.symbol (h : I.OnScope s) {n : String} (hv : s.symbol n = .ok v) : I.value v := by
  unfold Scope.symbol at hv
  split at hv
  · cases hv
    exact h.symbols _ _ ‹_›
  · cases hv

theorem OnScope.resolve (h : I.OnScope s) {n : String} (hv : s.resolve n = .ok v) : I.value v := by
  unfold Scope.resolve at hv
  split at hv
  · exact h.symbol hv
  · rename_i A hA
    split at hv
    · obtain ⟨vs, hvs, rfl⟩ := Except.map_eq_ok_iff.mp hv
      exact (h.selection A hA).column hvs
    · split at hv
      · cases hv
        exact value_list_map (fun row : List Value × Nat => .number _) A.rows
      · exact h.symbol hv

end Scopes

section Grouping

variable {A : Selection} {keys results : List Computed} {out : Table Value}

theorem inner_expandKey {height : Nat} {column : List Value} (h : expandKey height v = .ok column)
    (hv : I.value v) : ∀ w ∈ column, I.inner w := by
  cases v with
  | list items =>
    rw [expandKey] at h
    split at h
    · cases h
      exact (I.value_list _).mp hv
    · cases h
  | table t => cases h
  | atom | function =>
    cases h
    exact inner_replicate height (I.inner_of_isAtom _ rfl)

def computed (I : Invariant) (P : Value → Prop) (c : Computed) : Prop :=
  ∀ (A : Selection) (v : Value), I.onSelection A → c.2 A = .ok v → P v

theorem inner_keyColumn {key : Computed} (hkey : I.computed I.value key) (hA : I.onSelection A)
    {column : List Value} (h : keyColumn A key = .ok column) : ∀ v ∈ column, I.inner v := by
  obtain ⟨v, hv, h⟩ := Except.bind_eq_ok_iff.mp h
  exact inner_expandKey h (hkey A v hA hv)

theorem inner_carriedCells {carried : List (String × Nat)} {rows : List (List Value × Nat)}
    (hrows : ∀ row ∈ rows, ∀ v ∈ row.1, I.inner v) {cells : List Value}
    (h : carriedCells carried rows = .ok cells) : ∀ v ∈ cells, I.inner v := by
  unfold carriedCells at h
  split at h
  · rename_i row number hlast
    refine Except.forall_mem_of_mapM h fun c _ v hv => inner_cell ?_ hv
    exact hrows (row, number) (List.mem_of_getLast? hlast)
  · cases h
    exact fun v hv => absurd hv List.not_mem_nil

theorem inner_groupRow (hA : I.onSelection A) (hresults : ∀ c ∈ results, I.computed I.inner c)
    {carried : List (String × Nat)} {key : List Value} (hkey : ∀ v ∈ key, I.inner v)
    {members : List (List Value × Nat)} (hmembers : members ⊆ A.rows) {row : List Value}
    (h : groupRow A.columns carried results key members = .ok row) : ∀ v ∈ row, I.inner v := by
  obtain ⟨cells, hcells, h⟩ := Except.bind_eq_ok_iff.mp h
  obtain ⟨values, hvalues, h⟩ := Except.bind_eq_ok_iff.mp h
  cases h
  have hpart : I.onSelection ⟨A.columns, members⟩ := hA.subset rfl hmembers
  refine List.forall_mem_append.mpr ⟨List.forall_mem_append.mpr ⟨hkey, ?_⟩, ?_⟩
  · exact inner_carriedCells (fun row hrow v => hA.cells (hmembers hrow)) hcells
  · exact Except.forall_mem_of_mapM hvalues fun c hc v => hresults c hc _ v hpart

theorem value_group (hA : I.onSelection A) (hkeys : ∀ c ∈ keys, I.computed I.value c)
    (hresults : ∀ c ∈ results, I.computed I.inner c) (h : group A keys results = .ok out) :
    I.value (.table out) := by
  unfold group at h
  obtain ⟨keyColumns, hkeyColumns, h⟩ := Except.bind_eq_ok_iff.mp h
  obtain ⟨rows, hrows, h⟩ := Except.bind_eq_ok_iff.mp h
  obtain ⟨rfl, hout⟩ := Table.ofRows_eq_ok_iff.mp (Except.mapError_eq_ok_iff.mp h)
  have hcolumns : ∀ column ∈ keyColumns, ∀ v ∈ column, I.inner v :=
    Except.forall_mem_of_mapM hkeyColumns fun c hc column => inner_keyColumn (hkeys c hc) hA
  refine (I.value_table _).mpr ⟨I.shape_of_wellFormed _ hout, Except.forall_mem_of_mapM hrows ?_⟩
  rintro ⟨key, members⟩ hpart row hrow
  obtain ⟨hkey, hmembers⟩ := mem_partitions hpart
  refine inner_groupRow hA hresults ?_ hmembers hrow
  intro v hv
  obtain ⟨column, hcolumn, hmem⟩ := Table.mem_column_of_mem_transpose hkey hv
  exact hcolumns column hcolumn v hmem

end Grouping

section Calls

variable {s : Scope} {args : List Value}

theorem inner_items {b : Builtin} {items : List Value} (h : b.items v = .ok items)
    (hv : I.value v) : ∀ w ∈ items, I.inner w := by
  cases v with
  | list vs =>
    cases h
    exact (I.value_list _).mp hv
  | table t => cases h
  | atom | function =>
    cases h
    exact List.forall_mem_singleton.mpr (I.inner_of_isAtom _ rfl)

theorem inner_head {b : Builtin} {items : List Value} (h : b.items v = .ok items)
    (hv : I.value v) : I.inner (items.head?.getD .null) :=
  inner_getD fun w hw => inner_items h hv w (List.mem_of_head? hw)

theorem inner_getLast {b : Builtin} {items : List Value} (h : b.items v = .ok items)
    (hv : I.value v) : I.inner (items.getLast?.getD .null) :=
  inner_getD fun w hw => inner_items h hv w (List.mem_of_getLast? hw)

theorem inner_extreme {b : Builtin} {wanted : Ordering} {w : Value}
    (h : b.extreme wanted v = .ok w) (hv : I.value v) : I.inner w := by
  obtain ⟨items, hitems, h⟩ := Except.bind_eq_ok_iff.mp h
  have hall : ∀ u ∈ items.filter (!Builtin.isMissing ·), I.inner u := fun u hu =>
    inner_items hitems hv u (List.mem_of_mem_filter hu)
  split at h
  · cases h
    exact I.inner_of_isAtom _ rfl
  · rename_i item items heq
    exact hall w (heq ▸ Builtin.foldlM_better_mem h)

theorem value_countUp {w : Value} (h : Builtin.countUp v = .ok w) : I.value w := by
  unfold Builtin.countUp at h
  split at h
  · split at h
    · cases h
    · cases h
      exact value_list_map (fun k => .number _) _
  · cases h

theorem value_vwapOf (hs : I.OnScope s) {t out : Table Value} (ht : I.value (.table t))
    (h : Builtin.vwapOf s t = .ok out) : I.value (.table out) := by
  unfold Builtin.vwapOf at h
  split at h
  · cases h
  · refine value_group (onSelection_ofTable ht) ?_ ?_ h
    · refine List.forall_mem_singleton.mpr fun A v hA hv => ?_
      exact (hs.within hA).resolve hv
    · refine List.forall_mem_singleton.mpr fun A v _ hv => ?_
      obtain ⟨sizes, -, hv⟩ := Except.bind_eq_ok_iff.mp hv
      obtain ⟨prices, -, hv⟩ := Except.bind_eq_ok_iff.mp hv
      exact I.inner_of_isAtom v (Value.weightedAverage_isAtom hv)

theorem value_vwapSource (hs : I.OnScope s) (hargs : ∀ v ∈ args, I.value v)
    (h : Builtin.vwapSource s args = .ok v) : I.value v := by
  unfold Builtin.vwapSource at h
  split at h
  · exact hs.resolve h
  · exact hs.resolve h
  · cases h
    exact hargs _ List.mem_cons_self
  · cases h

theorem value_vwapCall (hs : I.OnScope s) (hargs : ∀ v ∈ args, I.value v)
    (h : Builtin.vwapCall s args = .ok v) : I.value v := by
  unfold Builtin.vwapCall at h
  split at h
  · cases h
    exact value_of_flat Sample.vwap_flat
  · obtain ⟨source, hsource, h⟩ := Except.bind_eq_ok_iff.mp h
    split at h
    · obtain ⟨out, hout, rfl⟩ := Except.map_eq_ok_iff.mp h
      exact value_vwapOf hs (value_vwapSource hs hargs hsource) hout
    · cases h

/-- A call that looks no columns up gives an atom, a list of atoms or what stands in an argument. -/
theorem call_origin {b : Builtin} (h : b.call s args = .ok v) :
    match b with
    | .vwap => Builtin.vwapCall s args = .ok v
    | .wavg | .count | .sum | .avg => v.isAtom = true
    | .til | .cols => ∀ I : Invariant, I.value v
    | .min | .max | .first | .last => ∃ w ∈ args, ∀ I : Invariant, I.value w → I.inner v := by
  have hone {w : Value} (hw : b.one args = .ok w) : w ∈ args := by
    rw [Builtin.one_eq_ok hw]
    exact List.mem_cons_self
  cases b with
  | vwap => exact h
  | wavg =>
    obtain ⟨pair, -, h⟩ := Except.bind_eq_ok_iff.mp h
    exact Value.weightedAverage_isAtom h
  | count =>
    obtain ⟨w, -, h⟩ := Except.bind_eq_ok_iff.mp h
    cases h
    rfl
  | sum | avg =>
    obtain ⟨w, -, h⟩ := Except.bind_eq_ok_iff.mp h
    obtain ⟨xs, -, h⟩ := Except.bind_eq_ok_iff.mp h
    cases h
    rfl
  | min | max =>
    obtain ⟨w, hw, h⟩ := Except.bind_eq_ok_iff.mp h
    exact ⟨w, hone hw, fun I => I.inner_extreme h⟩
  | first =>
    obtain ⟨w, hw, h⟩ := Except.bind_eq_ok_iff.mp h
    obtain ⟨items, hitems, h⟩ := Except.bind_eq_ok_iff.mp h
    cases h
    exact ⟨w, hone hw, fun I => I.inner_head hitems⟩
  | last =>
    obtain ⟨w, hw, h⟩ := Except.bind_eq_ok_iff.mp h
    obtain ⟨items, hitems, h⟩ := Except.bind_eq_ok_iff.mp h
    cases h
    exact ⟨w, hone hw, fun I => I.inner_getLast hitems⟩
  | til =>
    obtain ⟨w, -, h⟩ := Except.bind_eq_ok_iff.mp h
    exact fun I => I.value_countUp h
  | cols =>
    obtain ⟨w, -, h⟩ := Except.bind_eq_ok_iff.mp h
    split at h
    · cases h
      exact fun I => I.value_list_map .symbol _
    · cases h

theorem value_call (hs : I.OnScope s) (b : Builtin) (hargs : ∀ v ∈ args, I.value v)
    (h : b.call s args = .ok v) : I.value v := by
  have horigin := call_origin h
  cases b with
  | vwap => exact value_vwapCall hs hargs horigin
  | wavg | count | sum | avg => exact value_of_isAtom horigin
  | til | cols => exact horigin I
  | min | max | first | last =>
    obtain ⟨w, hw, hinner⟩ := horigin
    exact I.value_of_inner v (hinner I (hargs w hw))

theorem value_indexTable {t : Table Value} (ht : I.value (.table t))
    (h : indexTable t args = .ok v) : I.value v := by
  unfold indexTable at h
  split at h
  · split at h
    · obtain ⟨cells, hcells, rfl⟩ := Except.map_eq_ok_iff.mp h
      refine (I.value_list cells).mpr (Except.forall_mem_of_mapM hcells ?_)
      exact fun row hrow w hw => inner_cell (((I.value_table t).mp ht).2 row hrow) hw
    · cases h
  · cases h
  · cases h

end Calls

end Invariant

/-- What a successful application comes down to. -/
inductive Scope.Applied (s : Scope) (lenient : Bool) (f : String) (args : List Value) (v : Value) :
    Prop
  | builtin {b : Builtin} (hf : Builtin.lookup? f = some b) (h : b.call s args = .ok v)
  | list {items : List Value} (hf : Builtin.lookup? f = none)
    (hbound : s.resolve f = .ok (.list items)) (h : indexList items args = .ok v)
  | table {t : Table Value} (hf : Builtin.lookup? f = none)
    (hbound : s.resolve f = .ok (.table t)) (h : indexTable t args = .ok v)
  | found {b : Builtin} (hf : Builtin.lookup? f = none) (hlenient : lenient = true)
    (h : b.call s args = .ok v)
  | answered (hf : Builtin.lookup? f = none) (h : v.isAtom = true)

theorem Scope.applied {s : Scope} {lenient : Bool} {f : String} {args : List Value} {v : Value}
    (h : s.apply lenient f args = .ok v) : s.Applied lenient f args v := by
  unfold Scope.apply at h
  split at h
  · rename_i b hf
    exact .builtin hf h
  · rename_i hf
    split at h
    · exact .list hf ‹_› h
    · exact .table hf ‹_› h
    · split at h
      · rename_i b hfound
        cases lenient with
        | false => cases hfound
        | true => exact .found hf rfl h
      · split at h
        · cases h
          exact .answered hf rfl
        · cases h
        · split at h <;> cases h
          exact .answered hf rfl
        · cases h

end TableConsole
