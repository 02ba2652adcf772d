import TableConsole.Eval.Grouping
import TableConsole.Proofs.Except
import TableConsole.Proofs.Value.Columns

/-! # Assembling tables

Named values make a table exactly if none of them is a table, their lists have one length and their
names are distinct. The columns of the table are the lists, and the atoms repeated to their length.
-/

namespace TableConsole

set_option autoImplicit false

namespace Value

def cells (height : Nat) : Value → List Value
  | .list items => items
  | v => List.replicate height v

variable {height : Nat} {v : Value}

theorem length_cells (h : ∀ items, v = .list items → items.length = height) :
    (v.cells height).length = height := by
  cases v with
  | list items => exact h items rfl
  | atom | table | function => exact List.length_replicate

theorem cells_of_length {n : Nat} (h : (v.cells height).length = n) :
    v.cells height = v.cells n := by
  cases v with
  | list items => rfl
  | atom | table | function =>
    obtain rfl : height = n := List.length_replicate.symm.trans h
    rfl

end Value

theorem columnCells_eq_ok_iff {height : Nat} {c : String × Value} {d : String × List Value} :
    columnCells height c = .ok d ↔ c.2.kind ≠ .table ∧ (c.1, c.2.cells height) = d := by
  obtain ⟨name, v⟩ := c
  cases v with
  | list | table | function => simp [columnCells, Value.kind, Value.cells]
  | atom a => cases a <;> simp [columnCells, Value.kind, Atom.kind, Value.cells]

theorem mapM_columnCells_eq_ok_iff {height : Nat} {columns : List (String × Value)}
    {cells : List (String × List Value)} :
    columns.mapM (columnCells height) = .ok cells ↔
      (∀ c ∈ columns, c.2.kind ≠ .table) ∧
        (columns.map fun c => (c.1, c.2.cells height)) = cells := by
  simp only [Except.mapM_eq_ok_iff, columnCells_eq_ok_iff, List.forall₂_and_left,
    ← List.forall₂_eq_eq_eq, List.forall₂_map_left_iff]

section Height

variable {columns : List (String × Value)} {height : Nat}

/-- All lists have the given length. -/
def ListsOfLength (height : Nat) (columns : List (String × Value)) : Prop :=
  ∀ c ∈ columns, ∀ items, c.2 = .list items → items.length = height

theorem columnHeight_of_list (h : ListsOfLength height columns) {c : String × Value}
    (hc : c ∈ columns) {items : List Value} (hlist : c.2 = .list items) :
    columnHeight columns = height := by
  rw [columnHeight]
  cases hfirst : columns.findSome? _ with
  | none =>
    have hnone := List.findSome?_eq_none_iff.mp hfirst c hc
    simp [hlist] at hnone
  | some n =>
    obtain ⟨d, hd, heq⟩ := List.exists_of_findSome?_eq_some hfirst
    dsimp only at heq
    split at heq
    · rename_i others hothers
      cases heq
      exact h d hd others hothers
    · cases heq

theorem columnHeight_of_no_list (h : ∀ c ∈ columns, c.2.kind ≠ .list) :
    columnHeight columns = 1 := by
  rw [columnHeight, List.findSome?_eq_none_iff.mpr, Option.getD_none]
  intro c hc
  dsimp only
  split
  · rename_i items hlist
    exact absurd (congrArg Value.kind hlist) (h c hc)
  · rfl

theorem length_cells_columnHeight (h : ListsOfLength height columns) {c : String × Value}
    (hc : c ∈ columns) : (c.2.cells (columnHeight columns)).length = columnHeight columns :=
  Value.length_cells fun items hlist => by rw [columnHeight_of_list h hc hlist, h c hc items hlist]

end Height

/-- The columns of named values. -/
def columnsOf (columns : List (String × Value)) : List (String × List Value) :=
  columns.map fun c => (c.1, c.2.cells (columnHeight columns))

theorem assemble_eq_ok_iff {columns : List (String × Value)} {t : Table Value} :
    assemble columns = .ok t ↔
      (∀ c ∈ columns, c.2.kind ≠ .table) ∧ Table.ofColumns (columnsOf columns) = .ok t := by
  simp only [assemble, Except.bind_eq_ok_iff, mapM_columnCells_eq_ok_iff, ofDefective,
    Except.mapError_eq_ok_iff]
  constructor
  · rintro ⟨_, ⟨hkind, rfl⟩, h⟩
    exact ⟨hkind, h⟩
  · rintro ⟨hkind, h⟩
    exact ⟨_, ⟨hkind, rfl⟩, h⟩

theorem lengths_columnsOf_iff {columns : List (String × Value)} :
    (∀ c ∈ columnsOf columns, ∀ d ∈ columnsOf columns, c.2.length = d.2.length) ↔
      ∃ height, ListsOfLength height columns := by
  constructor
  · intro h
    cases columns with
    | nil => exact ⟨0, nofun⟩
    | cons c columns =>
      refine ⟨(c.2.cells (columnHeight (c :: columns))).length, fun d hd items hlist => ?_⟩
      have hlength := h _ (List.mem_map_of_mem hd) _ (List.mem_map_of_mem List.mem_cons_self)
      dsimp only at hlength
      rwa [hlist] at hlength
  · rintro ⟨height, h⟩
    simp only [columnsOf, List.forall_mem_map]
    intro c hc d hd
    rw [length_cells_columnHeight h hc, length_cells_columnHeight h hd]

/-- Named values make a table exactly if none of them is a table, their lists have one length and
their names are distinct. The table has these columns with as many rows as the lists have items, or
one if there is no list, or none if there is no column. -/
theorem assemble_exact (columns : List (String × Value)) :
    ((∃ t, assemble columns = .ok t) ↔
      (∀ c ∈ columns, c.2.kind ≠ .table) ∧ (∃ height, ListsOfLength height columns) ∧
        (columns.map (·.1)).Nodup) ∧
    ∀ t, assemble columns = .ok t →
      t.WellFormed ∧ t.columns = columns.map (·.1) ∧
        (∀ c ∈ columns, t.column? c.1 = some (c.2.cells t.rows.length)) ∧
        ListsOfLength t.rows.length columns ∧
        (columns ≠ [] → (∀ c ∈ columns, c.2.kind ≠ .list) → t.rows.length = 1) ∧
        (columns = [] → t.rows.length = 0) := by
  have hnames : (columnsOf columns).map (·.1) = columns.map (·.1) := by
    simp [columnsOf, Function.comp_def]
  constructor
  · simp only [assemble_eq_ok_iff, exists_and_left, Table.exists_ofColumns_iff, hnames,
      lengths_columnsOf_iff]
    tauto
  · intro t h
    obtain ⟨-, hcolumns⟩ := assemble_eq_ok_iff.mp h
    obtain ⟨hwell, hbyColumn, hempty⟩ := Table.ofColumns_eq_ok_iff.mp hcolumns
    have hmem : ∀ c ∈ columns, (c.1, c.2.cells (columnHeight columns)) ∈ t.byColumn :=
      fun c hc => hbyColumn ▸ List.mem_map_of_mem hc
    have hlength : ∀ c ∈ columns, (c.2.cells (columnHeight columns)).length = t.rows.length :=
      fun c hc => hwell.columnwise.length_of_mem _ (hmem c hc)
    refine ⟨hwell, ?_, ?_, ?_, ?_, ?_⟩
    · rw [← t.map_fst_byColumn, hbyColumn, hnames]
    · intro c hc
      rw [← Value.cells_of_length (hlength c hc)]
      exact hwell.columnwise.column?_of_mem _ (hmem c hc)
    · intro c hc items hlist
      have hitems := hlength c hc
      rwa [hlist] at hitems
    · -- Without a list the height is one, and any column shows it.
      intro hne hatoms
      obtain ⟨c, hc⟩ := List.exists_mem_of_ne_nil columns hne
      rw [← hlength c hc, columnHeight_of_no_list hatoms]
      exact Value.length_cells fun items hlist =>
        absurd (congrArg Value.kind hlist) (hatoms c hc)
    · rintro rfl
      exact List.length_eq_zero_iff.mpr (hempty rfl)

theorem assemble_exact_heights :
    let mixed : List (String × Value) :=
      [("a", .number 1), ("b", .list [.boolean true, .null]), ("c", .function "\x7bx\x7d")]
    let single : List (String × Value) := [("a", .symbol "x")]
    (∃ t, assemble mixed = .ok t ∧ t.columns = ["a", "b", "c"] ∧
      t.column? "a" = some [.number 1, .number 1] ∧
      t.column? "b" = some [.boolean true, .null]) ∧
    (∃ t, assemble single = .ok t ∧ t.column? "a" = some [.symbol "x"]) ∧
    ∃ t, assemble [] = .ok t ∧ t.rows.length = 0 := by
  intro mixed single
  refine ⟨?_, ?_, ?_⟩
  · obtain ⟨t, ht⟩ := (assemble_exact mixed).1.mpr
      ⟨by decide, ⟨2, by simp [ListsOfLength, mixed]⟩, by decide⟩
    obtain ⟨-, hnames, hcells, hlists, -⟩ := (assemble_exact mixed).2 t ht
    have hmem : ("b", Value.list [.boolean true, .null]) ∈ mixed := by simp [mixed]
    have hrows : 2 = t.rows.length := hlists _ hmem _ rfl
    refine ⟨t, ht, hnames, ?_, hcells _ hmem⟩
    rw [hcells ("a", .number 1) List.mem_cons_self, ← hrows]
    rfl
  · obtain ⟨t, ht⟩ := (assemble_exact single).1.mpr
      ⟨by decide, ⟨1, by simp [ListsOfLength, single]⟩, by decide⟩
    obtain ⟨-, -, hcells, -, hrows, -⟩ := (assemble_exact single).2 t ht
    refine ⟨t, ht, ?_⟩
    rw [hcells ("a", .symbol "x") List.mem_cons_self, hrows (by decide) (by decide)]
    rfl
  · obtain ⟨t, ht⟩ := (assemble_exact []).1.mpr ⟨nofun, ⟨0, nofun⟩, List.nodup_nil⟩
    obtain ⟨-, -, -, -, -, hrows⟩ := (assemble_exact []).2 t ht
    exact ⟨t, ht, hrows rfl⟩

end TableConsole
