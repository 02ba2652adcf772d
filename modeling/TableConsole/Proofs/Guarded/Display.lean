import TableConsole.Proofs.Display.Layout
import TableConsole.Proofs.Guarded.Basic
import TableConsole.Proofs.Session.WellFormed

/-! # Guarded tables on display

A column is as wide as its name and as the fields at its place in all rows; a field is read at its
place or not at all. Padding fails by itself where a column is too wide, so a guarded table has two
ways to give no text: a field that is not there, and with all fields read, a width.
-/

namespace TableConsole.Guarded

open TableText

set_option autoImplicit false

def width? (rows : List (List (List Char))) (name : List Char) (index : Nat) : Option Nat :=
  rows.foldlM (fun width row => row[index]?.map fun field => max width field.length) name.length

def widths? (header : List (List Char)) (rows : List (List (List Char))) : Option (List Nat) :=
  header.zipIdx.mapM fun (name, index) => width? rows name index

/-- Nothing for a field that is missing, `some none` for a table that is too wide. -/
def tableText? (t : Table Value) : Option (Option String) :=
  let header := t.columns.map String.toList
  let rows := t.rows.map fun row => row.map fun v => v.cellText.toList
  (widths? header rows).map fun widths =>
    (linesOf? widths header rows).map fun lines => String.ofList (['\n'].intercalate lines)

def display? : Value → Option (Option DisplayLine)
  | .table t => (tableText? t).map (·.map (⟨.table, ·⟩))
  | v => some v.display?

def outcomeLines? : Outcome → Option (Option (List DisplayLine))
  | .assigned name v =>
    let report := .comment ("// Assigned to variable: " ++ name)
    match v with
    | .table _ | .list _ => (display? v).map (·.map fun line => [report, line])
    | _ => some (some [report])
  | .defined name => some (some [.comment ("// Function defined: " ++ name)])
  | .value v => (display? v).map (·.map ([·]))

theorem foldlM_width {rows : List (List (List Char))} {widths : List Nat}
    (h : ∀ row ∈ rows, row.length = widths.length) {index width : Nat}
    (hwidth : widths[index]? = some width) :
    rows.foldlM (fun width row => row[index]?.map fun field => max width field.length) width =
      (rows.foldl widen widths)[index]? := by
  induction rows generalizing widths width with
  | nil => exact hwidth.symm
  | cons row rows ih =>
    obtain ⟨hrow, hrows⟩ := List.forall_mem_cons.mp h
    obtain ⟨hlt, -⟩ := List.getElem?_eq_some_iff.mp hwidth
    have hfield := List.getElem?_eq_getElem (hrow ▸ hlt)
    rw [List.foldlM_cons, hfield, List.foldl_cons]
    refine ih (by rwa [length_widen hrow]) ?_
    rw [widen, List.getElem?_zipWith, hwidth, hfield]

theorem widths?_eq {header : List (List Char)} {rows : List (List (List Char))}
    (h : ∀ row ∈ rows, row.length = header.length) :
    widths? header rows = some (widths header rows) := by
  have hrows : ∀ row ∈ rows, row.length = (header.map List.length).length := by
    rwa [List.length_map]
  have hlength : (widths header rows).length = header.length := by
    rw [widths, length_foldl_widen hrows, List.length_map]
  refine mapM_zipIdx_eq_some hlength fun x hx => ?_
  obtain ⟨name, index⟩ := x
  have hname : header[index]? = some name := List.mem_zipIdx_iff_getElem?.mp hx
  exact foldlM_width hrows (by rw [List.getElem?_map, hname]; rfl)

theorem tableText?_eq {t : Table Value} (h : t.WellFormed) : tableText? t = some t.text? := by
  have hrows : ∀ row ∈ body t, row.length = (header t).length := by
    rw [length_header]
    exact length_of_mem_body h
  have hwidths := widths?_eq hrows
  dsimp only [header, body] at hwidths
  dsimp only [tableText?]
  rw [hwidths]
  rfl

theorem display?_eq {v : Value} (h : v.WellFormed) : display? v = some v.display? := by
  cases v with
  | table t =>
    rw [display?, tableText?_eq (Value.wellFormed_table_iff.mp h).1]
    rfl
  | atom | list | function => rfl

theorem outcomeLines?_eq {outcome : Outcome} (h : outcome.WellFormed) :
    outcomeLines? outcome = some outcome.display? := by
  cases outcome with
  | assigned name v =>
    have hdisplay := display?_eq (v := v) h
    cases v with
    | table | list =>
      dsimp only [outcomeLines?]
      rw [hdisplay]
      rfl
    | atom | function => rfl
  | defined name => rfl
  | value v =>
    rw [outcomeLines?, display?_eq h]
    rfl

end TableConsole.Guarded
