import TableConsole.Eval.Expr
import TableConsole.Syntax.Parser

/-! # Queries

A query keeps the rows that pass its filters, one filter after the other, and then computes its
projections over the kept rows, or over each group of them.
-/

namespace TableConsole

set_option autoImplicit false

/-- The name of a result column: its own, the column it shows, the function and the column it is
applied to, or its place. -/
def Projection.columnName (p : Projection) (position : Nat) : String :=
  match p.name, p.expr with
  | some name, _ => name
  | none, .name column => column
  | none, .apply f [.name column] =>
    if f = "count" ∧ column = "i" then "count" else f ++ "_" ++ column
  | none, _ => "col" ++ toString (position + 1)

def Projection.computed (s : Scope) (p : Projection) (position : Nat) : Computed :=
  (p.columnName position, fun selection => p.expr.eval (s.within selection))

/-- Projections with their places, counted from `start`. -/
def computedFrom (s : Scope) (start : Nat) (ps : List Projection) : List Computed :=
  (ps.zipIdx start).map fun (p, position) => p.computed s position

/-- The rows that pass a filter: a list decides row by row, anything else for all rows. -/
def Selection.keep (selection : Selection) : Value → Except EvalError Selection
  | .list flags =>
    if flags.length = selection.rows.length then
      .ok ⟨selection.columns, ((selection.rows.zip flags).filter (·.2.truthy)).map (·.1)⟩
    else .error (.length selection.rows.length flags.length)
  | v => .ok (if v.truthy then selection else ⟨selection.columns, []⟩)

def Selection.filter (selection : Selection) (s : Scope) (e : Expr) :
    Except EvalError Selection := do
  selection.keep (← e.eval (s.within selection))

def Selection.filterAll (selection : Selection) (s : Scope) (filters : List Expr) :
    Except EvalError Selection :=
  filters.foldlM (fun selection e => selection.filter s e) selection

def Selection.table (selection : Selection) : Table Value :=
  ⟨selection.columns, selection.rows.map (·.1)⟩

def project (selection : Selection) (results : List Computed) : Except EvalError (Table Value) := do
  if results.isEmpty then .ok selection.table
  else assemble (← results.mapM fun (name, f) => do .ok (name, ← f selection))

def Query.run (q : Query) (s : Scope) (t : Table Value) : Except EvalError (Table Value) := do
  let selection ← (Selection.ofTable t).filterAll s q.filters
  if q.groups.isEmpty then project selection (computedFrom s 0 q.projections)
  else
    group selection (computedFrom s 0 q.groups) (computedFrom s q.groups.length q.projections)

/-- A query of a name that is not bound has a placeholder for its answer. -/
def Query.answer (q : Query) (s : Scope) : Except EvalError (Table Value) :=
  match s.symbols.get? q.source with
  | some (.table t) => q.run s t
  | some v => .error (.table (.notTable q.source v.kind))
  | none => .ok Sample.placeholder

end TableConsole
