import TableConsole.Proofs.Value.KeyForm
import TableConsole.Proofs.Value.WellFormed

/-! # Key equality as a relation

Key equality is symmetric and transitive, as equality of values is for any symmetric and transitive
comparison of numbers. It relates a value to itself unless a missing number stands in a table of the
value: there numbers are compared by plain equality, and so a missing number equals nothing.
-/

namespace TableConsole

set_option autoImplicit false

/-- What holds of a list if it holds of its items, and of a table if it holds of its cells. -/
@[elab_as_elim]
theorem Value.memberInduction {P : Value → Prop} (atom : ∀ a, P (.atom a))
    (list : ∀ items, (∀ v ∈ items, P v) → P (.list items))
    (table : ∀ t : Table Value, t.Cells P → P (.table t))
    (function : ∀ source, P (.function source)) : ∀ v, P v
  | .atom a => atom a
  | .list items => list items fun v _ => memberInduction atom list table function v
  | .table t => table t fun row _ v _ => memberInduction atom list table function v
  | .function source => function source
termination_by v => sizeOf v
decreasing_by
  · have hitem := List.sizeOf_lt_of_mem ‹v ∈ items›
    rw [Value.list.sizeOf_spec]
    omega
  · have hcell := List.sizeOf_lt_of_mem ‹v ∈ row›
    have hcells := List.sizeOf_lt_of_mem ‹row ∈ t.rows›
    obtain ⟨columns, rows⟩ := t
    rw [Value.table.sizeOf_spec, Table.mk.sizeOf_spec]
    dsimp only at hcells
    omega

section Lists

variable {α : Type} {R : α → α → Prop} {as bs cs : List α}

theorem forall₂_symm_of_mem (hR : ∀ a ∈ as, ∀ b, R a b → R b a) (h : List.Forall₂ R as bs) :
    List.Forall₂ R bs as := by
  induction h with
  | nil => exact .nil
  | cons hab _ ih =>
    obtain ⟨hhead, htail⟩ := List.forall_mem_cons.mp hR
    exact .cons (hhead _ hab) (ih htail)

theorem forall₂_trans_of_mem (hR : ∀ a ∈ as, ∀ b c, R a b → R b c → R a c)
    (hab : List.Forall₂ R as bs) (hbc : List.Forall₂ R bs cs) : List.Forall₂ R as cs := by
  induction hab generalizing cs with
  | nil => exact hbc
  | cons hab _ ih =>
    obtain ⟨hhead, htail⟩ := List.forall_mem_cons.mp hR
    cases hbc with
    | cons hbc hrest => exact .cons (hhead _ _ hab hbc) (ih htail hrest)

end Lists

namespace Value

variable {same : Float → Float → Bool} {a : Atom} {items : List Value} {t : Table Value}
  {source : String} {w : Value}

theorem atom_agree_iff : (Value.atom a).agree same w = true ↔
    ∃ b, w = .atom b ∧ a.agree same b = true := by
  cases w <;> simp [agree]

theorem list_agree_iff : (Value.list items).agree same w = true ↔
    ∃ others, w = .list others ∧
      List.Forall₂ (fun v v' => v.agree same v' = true) items others := by
  cases w <;> simp [agree, itemsAgree_iff]

theorem rowsEqual_iff {rows others : List (List Value)} : rowsEqual rows others = true ↔
    List.Forall₂ (List.Forall₂ fun v v' => v.equal v' = true) rows others := by
  induction rows generalizing others with
  | nil => cases others <;> simp [rowsEqual]
  | cons row rows ih =>
    cases others with
    | nil => simp [rowsEqual]
    | cons other others =>
      rw [rowsEqual, Bool.and_eq_true, ih, itemsAgree_iff, List.forall₂_cons]
      rfl

/-- Cells are compared by plain equality, whatever the comparison of numbers. -/
theorem table_agree_iff : (Value.table t).agree same w = true ↔
    ∃ u : Table Value, w = .table u ∧ t.columns = u.columns ∧
      List.Forall₂ (List.Forall₂ fun v v' => v.equal v' = true) t.rows u.rows := by
  cases w with
  | table u =>
    obtain ⟨columns, rows⟩ := t
    simp [agree, tablesEqual, rowsEqual_iff]
  | atom | list | function => simp [agree]

theorem function_agree_iff : (Value.function source).agree same w = true ↔
    w = .function source := by
  cases w with
  | function other =>
    rw [agree, beq_iff_eq, function.injEq]
    exact eq_comm
  | atom | list | table => simp [agree]

end Value

section Comparison

variable {same : Float → Float → Bool}

theorem Atom.agree_symm (hsame : ∀ x y, same x y = true → same y x = true) {a b : Atom}
    (h : a.agree same b = true) : b.agree same a = true := by
  cases a <;> cases b <;> simp_all [Atom.agree]

theorem Atom.agree_trans (hsame : ∀ x y z, same x y = true → same y z = true → same x z = true)
    {a b c : Atom} (hab : a.agree same b = true) (hbc : b.agree same c = true) :
    a.agree same c = true := by
  cases a <;> cases b <;> cases c <;> simp_all [Atom.agree]
  exact hsame _ _ _ hab hbc

end Comparison

namespace Value

theorem agree_symm {same : Float → Float → Bool}
    (hsame : ∀ x y, same x y = true → same y x = true) {v w : Value} (h : v.agree same w = true) :
    w.agree same v = true := by
  induction v using memberInduction generalizing same w with
  | atom a =>
    obtain ⟨b, rfl, hab⟩ := atom_agree_iff.mp h
    exact atom_agree_iff.mpr ⟨a, rfl, Atom.agree_symm hsame hab⟩
  | list items ih =>
    obtain ⟨others, rfl, hitems⟩ := list_agree_iff.mp h
    refine list_agree_iff.mpr ⟨items, rfl, forall₂_symm_of_mem (fun v hv w hvw => ?_) hitems⟩
    exact ih v hv hsame hvw
  | table t ih =>
    obtain ⟨u, rfl, hcolumns, hrows⟩ := table_agree_iff.mp h
    refine table_agree_iff.mpr ⟨t, rfl, hcolumns.symm, forall₂_symm_of_mem ?_ hrows⟩
    refine fun row hrow other hcells => forall₂_symm_of_mem (fun v hv w hvw => ?_) hcells
    -- Cells are compared by plain equality, so the induction is for every comparison of numbers.
    exact ih row hrow v hv Number.beq_symm hvw
  | function source =>
    obtain rfl := function_agree_iff.mp h
    exact h

theorem agree_trans {same : Float → Float → Bool}
    (hsame : ∀ x y z, same x y = true → same y z = true → same x z = true) {u v w : Value}
    (huv : u.agree same v = true) (hvw : v.agree same w = true) : u.agree same w = true := by
  induction u using memberInduction generalizing same v w with
  | atom a =>
    obtain ⟨b, rfl, hab⟩ := atom_agree_iff.mp huv
    obtain ⟨c, rfl, hbc⟩ := atom_agree_iff.mp hvw
    exact atom_agree_iff.mpr ⟨c, rfl, Atom.agree_trans hsame hab hbc⟩
  | list items ih =>
    obtain ⟨others, rfl, hitems⟩ := list_agree_iff.mp huv
    obtain ⟨thirds, rfl, hothers⟩ := list_agree_iff.mp hvw
    refine list_agree_iff.mpr ⟨thirds, rfl, forall₂_trans_of_mem ?_ hitems hothers⟩
    exact fun u hu v w huv hvw => ih u hu hsame huv hvw
  | table t ih =>
    obtain ⟨t', rfl, hcolumns, hrows⟩ := table_agree_iff.mp huv
    obtain ⟨t'', rfl, hcolumns', hrows'⟩ := table_agree_iff.mp hvw
    refine table_agree_iff.mpr ⟨t'', rfl, hcolumns.trans hcolumns', ?_⟩
    refine forall₂_trans_of_mem (fun row hrow _ _ => forall₂_trans_of_mem ?_) hrows hrows'
    exact fun u hu v w huv hvw => ih row hrow u hu Number.beq_trans huv hvw
  | function source =>
    obtain rfl := function_agree_iff.mp huv
    exact hvw

/-- A missing number is the value, or stands in an item of it or in a cell of it. -/
inductive HasMissing : Value → Prop
  | number {x : Float} : x.isNaN = true → HasMissing (.number x)
  | item {items : List Value} {v : Value} : v ∈ items → HasMissing v → HasMissing (.list items)
  | cell {t : Table Value} {row : List Value} {v : Value} :
    row ∈ t.rows → v ∈ row → HasMissing v → HasMissing (.table t)

theorem HasMissing.of_foundIn {t : Table Value} {v : Value} (ht : t.FoundIn v)
    (h : (Value.table t).HasMissing) : v.HasMissing := by
  induction ht with
  | here => exact h
  | item hv _ ih => exact .item hv ih
  | cell hrow hv _ ih => exact .cell hrow hv ih

theorem hasMissing_number_iff {x : Float} : (Value.number x).HasMissing ↔ x.isNaN = true :=
  ⟨fun h => by cases h; assumption, .number⟩

theorem hasMissing_list_iff {items : List Value} :
    (Value.list items).HasMissing ↔ ∃ v ∈ items, v.HasMissing := by
  constructor
  · intro h
    cases h with
    | item hv h => exact ⟨_, hv, h⟩
  · rintro ⟨v, hv, h⟩
    exact .item hv h

theorem hasMissing_table_iff {t : Table Value} :
    (Value.table t).HasMissing ↔ ∃ row ∈ t.rows, ∃ v ∈ row, v.HasMissing := by
  constructor
  · intro h
    cases h with
    | cell hrow hv h => exact ⟨_, hrow, _, hv, h⟩
  · rintro ⟨row, hrow, v, hv, h⟩
    exact .cell hrow hv h

theorem list_agree_self_iff {same : Float → Float → Bool} {items : List Value} :
    (Value.list items).agree same (.list items) = true ↔ ∀ v ∈ items, v.agree same v = true := by
  rw [agree, itemsAgree_iff, List.forall₂_same]

theorem table_agree_self_iff {same : Float → Float → Bool} {t : Table Value} :
    (Value.table t).agree same (.table t) = true ↔ t.Cells fun v => v.equal v = true := by
  rw [agree, tablesEqual, Bool.and_eq_true, beq_iff_eq, rowsEqual_iff, List.forall₂_same]
  simp only [List.forall₂_same, true_and, Table.Cells]

theorem equal_self_iff {v : Value} : v.equal v = true ↔ ¬ v.HasMissing := by
  induction v using memberInduction with
  | atom a =>
    cases a with
    | number x =>
      rw [hasMissing_number_iff, Bool.not_eq_true, ← Number.beq_self_iff, equal, agree, Atom.agree]
    | text | boolean | date | symbol =>
      exact iff_of_true (by simp [equal, agree, Atom.agree]) fun h => by cases h
  | list items ih =>
    rw [equal, list_agree_self_iff, hasMissing_list_iff]
    push Not
    exact forall₂_congr ih
  | table t ih =>
    rw [equal, table_agree_self_iff, hasMissing_table_iff]
    push Not
    exact forall₂_congr fun row hrow => forall₂_congr (ih row hrow)
  | function source => exact iff_of_true (function_agree_iff.mpr rfl) fun h => by cases h

theorem sameKey_self_iff {v : Value} :
    v.sameKey v = true ↔ ∀ t : Table Value, t.FoundIn v → ¬ (Value.table t).HasMissing := by
  induction v using memberInduction with
  | atom a =>
    -- Two missing numbers are the same key.
    refine iff_of_true ?_ nofun
    rw [sameKey, agree, Atom.agree_iff_keyForm]
  | list items ih =>
    rw [sameKey, list_agree_self_iff]
    refine (forall₂_congr ih).trans ⟨?_, fun h v hv t ht => h t (.item hv ht)⟩
    intro h t ht
    cases ht with
    | item hv ht => exact h _ hv t ht
  | table t _ =>
    have hself : (Value.table t).sameKey (.table t) = true ↔ ¬ (Value.table t).HasMissing := by
      rw [← equal_self_iff, sameKey, equal, table_agree_self_iff, table_agree_self_iff]
    rw [hself]
    exact ⟨fun h u hu hmissing => h (hmissing.of_foundIn hu), fun h => h t .here⟩
  | function source => exact iff_of_true (function_agree_iff.mpr rfl) nofun

/-- Key equality is symmetric and transitive, and it relates a value to itself exactly if no missing
number stands in a table of the value. -/
theorem sameKey_equivalence (u v w : Value) :
    u.sameKey v = v.sameKey u ∧
    (u.sameKey v = true → v.sameKey w = true → u.sameKey w = true) ∧
    (u.sameKey u = true ↔ ∀ t : Table Value, t.FoundIn u → ¬ (Value.table t).HasMissing) := by
  refine ⟨?_, agree_trans Number.sameNumber_trans, sameKey_self_iff⟩
  have hsymm {v w : Value} : v.sameKey w = true → w.sameKey v = true :=
    agree_symm Number.sameNumber_symm
  exact Bool.eq_iff_iff.mpr ⟨hsymm, hsymm⟩

theorem sameKey_equivalence_nested :
    let t (x : Float) : Table Value := ⟨["a", "b"], [[.number x, .list [.text "c"]]]⟩
    let v (x : Float) : Value := .list [.null, .list [.null, .table (t x)]]
    ((v 0).sameKey (v (-0)) = true ∧ (v (-0)).sameKey (v 0) = true) ∧
      (v 0).sameKey (v 0) = true := by
  intro t v
  obtain ⟨hsymm, htrans, -⟩ := sameKey_equivalence (v 0) (v (-0)) (v 0)
  have hsame : (v 0).sameKey (v (-0)) = true := by decide +kernel
  have hsame' : (v (-0)).sameKey (v 0) = true := hsymm.symm.trans hsame
  exact ⟨⟨hsame, hsame'⟩, htrans hsame hsame'⟩

/-- A table with a missing number is no key that equals itself. -/
theorem sameKey_not_reflexive :
    let t : Table Value := ⟨["a"], [[.null]]⟩
    t.WellFormed ∧ (Value.table t).sameKey (.table t) = false := by
  decide +kernel

end Value

end TableConsole
