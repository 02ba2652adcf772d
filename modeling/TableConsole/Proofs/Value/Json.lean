import TableConsole.Proofs.Except
import TableConsole.Proofs.Number.Packing
import TableConsole.Proofs.Value.Date
import TableConsole.Session.Seed

/-! # Values and their JSON

A value that is written as JSON and converted back is the value, tables inside of it included. Two
kinds of values are lost on the way: infinities, which are written as null like a missing number,
and texts that read as a symbol or a date. So symbols are not kept either, as they are written
without their mark.
-/

namespace TableConsole

set_option autoImplicit false

/-- The atoms that convert back to themselves. -/
def Atom.Kept : Atom → Prop
  | .number x => x.isFinite = true ∨ x.isNaN = true
  | .text s => s.toList.head? ≠ some '\x60' ∧ Date.ofText? s = none
  | .boolean _ => True
  | .date d => d.HasPlainYear
  | .symbol _ => False

/-- Kept atoms, in lists and in the cells of well-formed tables of any depth. -/
inductive Value.Kept : Value → Prop
  | atom {a : Atom} : a.Kept → Kept (.atom a)
  | list {items : List Value} : (∀ v ∈ items, Kept v) → Kept (.list items)
  | table {t : Table Value} :
    t.WellFormed → (∀ row ∈ t.rows, ∀ v ∈ row, Kept v) → Kept (.table t)

theorem Date.ofText?_text {d : Date} (h : d.HasPlainYear) : ofText? d.text = some d := by
  rw [ofText?, text, String.toList_ofList, ofChars?_toChars h]

theorem Date.head?_text {d : Date} (h : d.HasPlainYear) : d.text.toList.head? ≠ some '\x60' := by
  obtain ⟨c, cs, hcs⟩ := List.exists_cons_of_ne_nil (@padded_ne_nil 4 d.year.natAbs)
  have hc : c.isDigit = true :=
    isDigit_of_mem_padded (hcs ▸ List.mem_cons_self : c ∈ padded 4 d.year.natAbs)
  rw [text, String.toList_ofList, toChars, yearChars_eq h, hcs]
  rintro heq
  cases heq
  cases hc

namespace Value

theorem ofJsonText_of_head? {s : String} (h : s.toList.head? ≠ some '\x60') :
    ofJsonText s =
      match Date.ofText? s with
      | some d => .date d
      | none => .text s := by
  unfold ofJsonText
  split
  · rename_i cs hs
    simp [hs] at h
  · rfl

theorem ofJson_toJson_atom {a : Atom} (h : a.Kept) : ofJson a.toJson = .ok (.atom a) := by
  cases a with
  | number x =>
    rw [Atom.toJson, Json.ofFloat]
    split
    · rfl
    · rename_i hfinite
      obtain hx | hx := h
      · exact absurd hx hfinite
      · rw [Number.eq_nan_of_isNaN hx]
        rfl
  | text s =>
    obtain ⟨hmark, hdate⟩ := h
    rw [Atom.toJson, ofJson, ofJsonText_of_head? hmark, hdate]
  | boolean b => rfl
  | date d =>
    rw [Atom.toJson, ofJson, ofJsonText_of_head? (Date.head?_text h), Date.ofText?_text h]
  | symbol s => exact h.elim

theorem itemsOfJson_itemsToJson {vs : List Value} (h : ∀ v ∈ vs, ofJson v.toJson = .ok v) :
    itemsOfJson (itemsToJson vs) = .ok vs := by
  induction vs with
  | nil => rfl
  | cons v vs ih =>
    obtain ⟨hv, hvs⟩ := List.forall_mem_cons.mp h
    rw [itemsToJson, itemsOfJson, hv, ih hvs]
    rfl

theorem rowListOfJson_rowsToJson {rows : List (List Value)}
    (h : ∀ row ∈ rows, ∀ v ∈ row, ofJson v.toJson = .ok v) :
    rowListOfJson (rowsToJson rows) = .ok rows := by
  induction rows with
  | nil => rfl
  | cons row rows ih =>
    obtain ⟨hrow, hrows⟩ := List.forall_mem_cons.mp h
    rw [rowsToJson, rowListOfJson, ofJson, itemsOfJson_itemsToJson hrow, ih hrows]
    rfl

theorem columnNames_map_text (names : List String) :
    columnNames (names.map .text) = .ok names := by
  induction names with
  | nil => rfl
  | cons name names ih =>
    rw [List.map_cons, columnNames, ih]
    rfl

theorem ofJson_tableToJson {t : Table Value} (ht : t.WellFormed)
    (hrows : rowListOfJson (rowsToJson t.rows) = .ok t.rows) :
    ofJson (tableToJson t) = .ok (.table t) := by
  have htable : Table.ofRows t.columns t.rows = .ok t := Table.ofRows_eq_ok_iff.mpr ⟨rfl, ht⟩
  rw [tableToJson, ofJson, ofMembers, if_pos ⟨rfl, rfl⟩]
  simp only [columnNames_map_text, rowsOfJson, hrows, htable, Except.ok_bind]
  rfl

end Value

/-- What JSON keeps converts back to itself. -/
theorem Value.ofJson_toJson {v : Value} (h : v.Kept) : Value.ofJson v.toJson = .ok v := by
  induction h with
  | atom ha => exact ofJson_toJson_atom ha
  | list _ ih =>
    rw [toJson, ofJson, itemsOfJson_itemsToJson ih]
    rfl
  | table ht _ ih => exact ofJson_tableToJson ht (rowListOfJson_rowsToJson ih)

/-- A table in a cell of a table, a missing number, a zero with a sign, and texts close to a date
and to a symbol. -/
theorem Value.ofJson_toJson_nested :
    let inner : Table Value := ⟨["columns", "rows"], [[.date ⟨2024, 2, 29, by decide⟩, .null]]⟩
    let v : Value := .list [.number (-0.0), .list [],
      .table ⟨["t"], [[.table inner], [.text "2023.02.29"], [.text " \x60a"], [.boolean false]]⟩]
    v.Kept ∧ Value.ofJson v.toJson = .ok v := by
  intro inner v
  have hdate : Kept (.date ⟨2024, 2, 29, by decide⟩) :=
    .atom ⟨by decide, by decide⟩
  have hnull : Kept .null := .atom (.inr (by decide +kernel))
  have hinner : Kept (.table inner) := .table (by decide) (by simp [inner, hdate, hnull])
  have hzero : Kept (.number (-0.0)) := .atom (.inl (by decide +kernel))
  have hempty : Kept (.list []) := .list (List.forall_mem_nil _)
  have htext : Kept (.text "2023.02.29") := .atom ⟨by decide, by decide +kernel⟩
  have hmark : Kept (.text " \x60a") := .atom ⟨by decide, by decide +kernel⟩
  have hboolean : Kept (.boolean false) := .atom trivial
  have hkept : v.Kept := by
    refine .list ?_
    simp only [List.forall_mem_cons, List.not_mem_nil, false_implies, implies_true, and_true]
    refine ⟨hzero, hempty, .table (by decide) ?_⟩
    simp [hinner, htext, hmark, hboolean]
  exact ⟨hkept, ofJson_toJson hkept⟩

end TableConsole
