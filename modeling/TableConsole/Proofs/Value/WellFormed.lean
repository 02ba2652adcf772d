import TableConsole.Sample
import TableConsole.Value.Table

/-! # Tables in values

Lists and the cells of tables hold values of any kind, so a table can stand anywhere in a value. A
value is well formed if all the tables in it are, at every depth.
-/

namespace TableConsole

set_option autoImplicit false

/-- The table is the value, or stands in an item of it or in a cell of it. -/
inductive Table.FoundIn (t : Table Value) : Value → Prop
  | here : FoundIn t (.table t)
  | item {items : List Value} {v : Value} : v ∈ items → FoundIn t v → FoundIn t (.list items)
  | cell {u : Table Value} {row : List Value} {v : Value} :
    row ∈ u.rows → v ∈ row → FoundIn t v → FoundIn t (.table u)

def Table.Cells (P : Value → Prop) (t : Table Value) : Prop :=
  ∀ row ∈ t.rows, ∀ v ∈ row, P v

def Value.WellFormed (v : Value) : Prop :=
  ∀ t : Table Value, t.FoundIn v → t.WellFormed

namespace Value

variable {v : Value} {items : List Value} {t : Table Value}

theorem wellFormed_of_isAtom (h : v.isAtom) : v.WellFormed := by
  intro t ht
  cases ht <;> cases h

theorem wellFormed_list_iff : (Value.list items).WellFormed ↔ ∀ v ∈ items, v.WellFormed := by
  constructor
  · intro h v hv t ht
    exact h t (.item hv ht)
  · intro h t ht
    cases ht with
    | item hv ht => exact h _ hv t ht

theorem wellFormed_table_iff :
    (Value.table t).WellFormed ↔ t.WellFormed ∧ t.Cells Value.WellFormed := by
  constructor
  · intro h
    exact ⟨h t .here, fun row hrow v hv u hu => h u (.cell hrow hv hu)⟩
  · rintro ⟨ht, hcells⟩ u hu
    cases hu with
    | here => exact ht
    | cell hrow hv hu => exact hcells _ hrow _ hv u hu

end Value

theorem Table.WellFormed.of_subset {t u : Table Value} (h : t.WellFormed)
    (hcolumns : u.columns = t.columns) (hrows : u.rows ⊆ t.rows) : u.WellFormed := by
  refine ⟨by rw [hcolumns]; exact h.1, fun row hrow => ?_⟩
  rw [hcolumns]
  exact h.2 row (hrows hrow)

/-- A well-formed table without lists and tables in its cells. -/
def Table.Flat (t : Table Value) : Prop :=
  t.WellFormed ∧ t.Cells fun v => v.isAtom

instance (t : Table Value) : Decidable t.Flat :=
  inferInstanceAs (Decidable (_ ∧ ∀ row ∈ t.rows, ∀ v ∈ row, v.isAtom = true))

namespace Sample

theorem trade_flat : trade.Flat := by decide

theorem vwap_flat : vwap.Flat := by decide

theorem placeholder_flat : placeholder.Flat := by decide

theorem literal_flat (text : String) : (literal text).Flat := by
  unfold literal
  split
  · exact trade_flat
  · split <;> decide

theorem query_flat (text : String) : (query text).Flat := by
  dsimp only [query]
  split
  · split
    · decide
    · split
      · decide
      · exact trade_flat
  · split
    · exact vwap_flat
    · exact placeholder_flat

end Sample

end TableConsole
