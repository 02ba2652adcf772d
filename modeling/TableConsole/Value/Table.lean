import TableConsole.Value.Basic

/-! # Tables

Building tables from rows and from columns, and reading columns off.
-/

namespace TableConsole

set_option autoImplicit false

/-- Why columns and rows do not make a table. -/
inductive TableDefect
  | duplicateColumn (name : String)
  | length (expected found : Nat)
  deriving DecidableEq, Repr

def duplicate? (seen : List String) : List String → Option String
  | [] => none
  | name :: names => if name ∈ seen then some name else duplicate? (name :: seen) names

theorem duplicate?_eq_none_iff {seen names : List String} :
    duplicate? seen names = none ↔ names.Nodup ∧ ∀ name ∈ names, name ∉ seen := by
  induction names generalizing seen with
  | nil => simp [duplicate?]
  | cons name names ih =>
    by_cases h : name ∈ seen
    · simp [duplicate?, h]
    · simp only [duplicate?, h, if_false, ih, List.nodup_cons, List.mem_cons, not_or]
      constructor
      · rintro ⟨hn, hs⟩
        refine ⟨⟨fun hm => (hs name hm).1 rfl, hn⟩, ?_⟩
        rintro x (rfl | hx)
        · exact h
        · exact (hs x hx).2
      · rintro ⟨⟨hm, hn⟩, hs⟩
        exact ⟨hn, fun x hx => ⟨fun e => hm (e ▸ hx), hs x (.inr hx)⟩⟩

namespace Table

variable {α : Type}

/-- Distinct names, and one cell for each in every row. -/
def WellFormed (t : Table α) : Prop :=
  t.columns.Nodup ∧ ∀ row ∈ t.rows, row.length = t.columns.length

instance (t : Table α) : Decidable t.WellFormed :=
  inferInstanceAs (Decidable (_ ∧ _))

def ofRows (columns : List String) (rows : List (List α)) : Except TableDefect (Table α) :=
  match duplicate? [] columns with
  | some name => .error (.duplicateColumn name)
  | none =>
    match rows.find? fun row => row.length != columns.length with
    | some row => .error (.length columns.length row.length)
    | none => .ok ⟨columns, rows⟩

theorem ofRows_eq_ok_iff {columns : List String} {rows : List (List α)} {t : Table α} :
    ofRows columns rows = .ok t ↔ t = ⟨columns, rows⟩ ∧ t.WellFormed := by
  unfold ofRows
  cases hd : duplicate? [] columns with
  | some name =>
    have hn : ¬ columns.Nodup := fun h => by
      have e : duplicate? [] columns = none := duplicate?_eq_none_iff.2 ⟨h, by simp⟩
      simp [hd] at e
    simp only [reduceCtorEq, false_iff, not_and]
    rintro rfl ⟨h, -⟩
    exact hn h
  | none =>
    have hn := (duplicate?_eq_none_iff.1 hd).1
    cases hf : rows.find? fun row => row.length != columns.length with
    | some row =>
      have hr := List.find?_some hf
      simp only [reduceCtorEq, false_iff, not_and]
      rintro rfl ⟨-, h⟩
      have := h row (List.mem_of_find?_eq_some hf)
      simp [this] at hr
    | none =>
      have hr : ∀ row ∈ rows, row.length = columns.length := by simpa using hf
      constructor
      · intro h
        cases h
        exact ⟨rfl, hn, hr⟩
      · rintro ⟨rfl, -⟩
        rfl

/-- The rows of columns that have `height` cells each. -/
def transpose (height : Nat) : List (List α) → List (List α)
  | [] => List.replicate height []
  | column :: columns => List.zipWith (· :: ·) column (transpose height columns)

def ofColumns (columns : List (String × List α)) : Except TableDefect (Table α) :=
  let height := (columns.head?.map fun (_, cells) => cells.length).getD 0
  match columns.find? fun (_, cells) => cells.length != height with
  | some (_, cells) => .error (.length height cells.length)
  | none => ofRows (columns.map (·.1)) (transpose height (columns.map (·.2)))

def columnIndex? (columns : List String) (name : String) : Option Nat :=
  columns.findIdx? (· == name)

/-- The cells at one place of every row, if every row has that place. -/
def cells? (rows : List (List α)) (index : Nat) : Option (List α) :=
  rows.mapM (·[index]?)

def column? (t : Table α) (name : String) : Option (List α) :=
  (columnIndex? t.columns name).bind (cells? t.rows)

def selectRows (t : Table α) (numbers : List Nat) : Table α :=
  ⟨t.columns, numbers.filterMap (t.rows[·]?)⟩

end Table

end TableConsole
