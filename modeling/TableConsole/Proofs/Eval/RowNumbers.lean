import TableConsole.Eval.Query
import TableConsole.Proofs.Except

/-! # Row numbers

Only the name `i` reads the numbers of selected rows, and only if no column is called so. Two
selections of the same rows under different numbers are therefore the same to any expression that
does not mention `i`. A name that is looked up while a call runs can be `i` in any expression; it
stands for a list there, and a list is no table to average.
-/

namespace TableConsole

set_option autoImplicit false

mutual

/-- The name stands in the expression, as a name of its own or as a called function. -/
def Expr.mentions (x : String) : Expr → Bool
  | .literal _ | .function _ => false
  | .list items => itemsMention x items
  | .table keys columns => columnsMention x keys || columnsMention x columns
  | .name n => n == x
  | .negate e => e.mentions x
  | .binary _ left right => left.mentions x || right.mentions x
  | .apply f args => f == x || itemsMention x args

def itemsMention (x : String) : List Expr → Bool
  | [] => false
  | e :: es => e.mentions x || itemsMention x es

def columnsMention (x : String) : List (String × Expr) → Bool
  | [] => false
  | (_, e) :: columns => e.mentions x || columnsMention x columns

end

/-- Row numbers are not seen: a column takes their name, or the name is not mentioned. -/
def NumberFree (columns : List String) (e : Expr) : Prop :=
  "i" ∈ columns ∨ e.mentions "i" = false

instance (columns : List String) (e : Expr) : Decidable (NumberFree columns e) :=
  inferInstanceAs (Decidable (_ ∨ _))

theorem free_or_iff {columns : List String} {a b : Bool} :
    ("i" ∈ columns ∨ (a || b) = false) ↔
      ("i" ∈ columns ∨ a = false) ∧ ("i" ∈ columns ∨ b = false) := by
  rw [Bool.or_eq_false_iff, or_and_left]

variable {s : Scope} {A B : Selection}

theorem Selection.columns_eq (h : A.table = B.table) : A.columns = B.columns :=
  congrArg Table.columns h

theorem Selection.rows_eq (h : A.table = B.table) : A.rows.map (·.1) = B.rows.map (·.1) :=
  congrArg Table.rows h

theorem Selection.length_eq (h : A.table = B.table) : A.rows.length = B.rows.length := by
  simpa using congrArg List.length (Selection.rows_eq h)

theorem Selection.table_ofTable (t : Table Value) : (Selection.ofTable t).table = t :=
  congrArg (Table.mk t.columns) (List.zipIdx_map_fst 0 t.rows)

theorem Selection.column_eq_mapM_rows (A : Selection) (index : Nat) :
    A.column index = (A.rows.map (·.1)).mapM (cell · index) := by
  rw [List.mapM_map]
  rfl

theorem Selection.column_eq (h : A.table = B.table) (index : Nat) :
    A.column index = B.column index := by
  rw [A.column_eq_mapM_rows, B.column_eq_mapM_rows, Selection.rows_eq h]

theorem Scope.resolve_within (s : Scope) (A : Selection) (n : String) :
    (s.within A).resolve n =
      match Table.columnIndex? A.columns n with
      | some index => (A.column index).map .list
      | none => if n = "i" then .ok (.list A.numbers) else s.symbol n :=
  rfl

theorem columnIndex?_ne_none {columns : List String} {n : String} (h : n ∈ columns) :
    Table.columnIndex? columns n ≠ none := by
  simpa [Table.columnIndex?] using h

/-- Outside the columns the name `i` is a list of numbers, whichever they are. -/
theorem Scope.resolve_eq_or_lists (h : A.table = B.table) (n : String) :
    (s.within A).resolve n = (s.within B).resolve n ∨
      n = "i" ∧ "i" ∉ A.columns ∧
        (s.within A).resolve n = .ok (.list A.numbers) ∧
        (s.within B).resolve n = .ok (.list B.numbers) := by
  rw [resolve_within, resolve_within, ← Selection.columns_eq h]
  cases hindex : Table.columnIndex? A.columns n with
  | some index => exact .inl (congrArg (Except.map Value.list) (Selection.column_eq h index))
  | none =>
    by_cases hn : n = "i"
    · subst hn
      exact .inr ⟨rfl, fun hmem => columnIndex?_ne_none hmem hindex, rfl, rfl⟩
    · exact .inl (by simp only [if_neg hn])

theorem Scope.resolve_eq (h : A.table = B.table) {n : String} (hn : "i" ∈ A.columns ∨ n ≠ "i") :
    (s.within A).resolve n = (s.within B).resolve n := by
  obtain hsame | ⟨rfl, hi, -, -⟩ := Scope.resolve_eq_or_lists (s := s) h n
  · exact hsame
  · exact absurd rfl (hn.resolve_left hi)

theorem Builtin.vwapCall_eq (h : A.table = B.table) (args : List Value) :
    Builtin.vwapCall (s.within A) args = Builtin.vwapCall (s.within B) args := by
  have hsource : Builtin.vwapSource (s.within A) args = Builtin.vwapSource (s.within B) args ∨
      ∃ as bs, Builtin.vwapSource (s.within A) args = .ok (.list as) ∧
        Builtin.vwapSource (s.within B) args = .ok (.list bs) := by
    unfold Builtin.vwapSource
    split
    · exact .inl (Scope.resolve_eq h (.inr (by decide)))
    · obtain hsame | ⟨-, -, hA, hB⟩ := Scope.resolve_eq_or_lists (s := s) h _
      · exact .inl hsame
      · exact .inr ⟨_, _, hA, hB⟩
    · exact .inl rfl
    · exact .inl rfl
  have hmode : (s.within A).mode = (s.within B).mode := rfl
  unfold Builtin.vwapCall
  rw [hmode]
  cases (s.within B).mode with
  | canned => rfl
  | computed =>
    obtain hsame | ⟨as, bs, hA, hB⟩ := hsource
    · rw [hsame]
      rfl
    · rw [hA, hB]
      rfl

theorem Builtin.call_eq (h : A.table = B.table) (b : Builtin) (args : List Value) :
    b.call (s.within A) args = b.call (s.within B) args := by
  cases b with
  | vwap => exact Builtin.vwapCall_eq h args
  | wavg | count | sum | avg | min | max | first | last | til | cols => rfl

theorem Scope.apply_eq (h : A.table = B.table) {f : String} (hf : "i" ∈ A.columns ∨ f ≠ "i")
    (lenient : Bool) (args : List Value) :
    (s.within A).apply lenient f args = (s.within B).apply lenient f args := by
  unfold Scope.apply
  rw [Scope.resolve_eq h hf]
  simp only [Builtin.call_eq h]

mutual

theorem Expr.eval_eq (h : A.table = B.table) (e : Expr) (he : NumberFree A.columns e) :
    e.eval (s.within A) = e.eval (s.within B) := by
  cases e with
  | literal | function => rfl
  | list items =>
    rw [Expr.eval, Expr.eval, evalItems_eq h items (by simpa [NumberFree, Expr.mentions] using he)]
  | table keys columns =>
    obtain ⟨hkeys, hcolumns⟩ := free_or_iff.mp he
    rw [Expr.eval, Expr.eval, evalColumns_eq h keys hkeys, evalColumns_eq h columns hcolumns]
  | name n => exact Scope.resolve_eq h (by simpa [NumberFree, Expr.mentions] using he)
  | negate e =>
    rw [Expr.eval, Expr.eval, Expr.eval_eq h e (by simpa [NumberFree, Expr.mentions] using he)]
  | binary op left right =>
    obtain ⟨hleft, hright⟩ := free_or_iff.mp he
    rw [Expr.eval, Expr.eval, Expr.eval_eq h left hleft, Expr.eval_eq h right hright]
  | apply f args =>
    obtain ⟨hf, hargs⟩ := free_or_iff.mp he
    have hf' : "i" ∈ A.columns ∨ f ≠ "i" := by simpa using hf
    rw [Expr.eval, Expr.eval, evalItems_eq h args hargs]
    simp only [Scope.apply_eq h hf']

theorem evalItems_eq (h : A.table = B.table) (es : List Expr)
    (hes : "i" ∈ A.columns ∨ itemsMention "i" es = false) :
    evalItems (s.within A) es = evalItems (s.within B) es := by
  cases es with
  | nil => rfl
  | cons e es =>
    obtain ⟨he, hes⟩ := free_or_iff.mp hes
    rw [evalItems, evalItems, Expr.eval_eq h e he, evalItems_eq h es hes]

theorem evalColumns_eq (h : A.table = B.table) (columns : List (String × Expr))
    (hcolumns : "i" ∈ A.columns ∨ columnsMention "i" columns = false) :
    evalColumns (s.within A) columns = evalColumns (s.within B) columns := by
  cases columns with
  | nil => rfl
  | cons column columns =>
    obtain ⟨name, e⟩ := column
    obtain ⟨he, hcolumns⟩ := free_or_iff.mp hcolumns
    rw [evalColumns, evalColumns, Expr.eval_eq h e he, evalColumns_eq h columns hcolumns]

end

end TableConsole
