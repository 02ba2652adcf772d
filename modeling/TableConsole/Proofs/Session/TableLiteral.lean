import TableConsole.Proofs.Eval.Literals
import TableConsole.Proofs.Session.Unnamed
import TableConsole.Proofs.Syntax.Writing
import TableConsole.Proofs.Value.Columns

/-! # Table literals

A table of atoms is written as a literal, column by column, and the literal gives the table back.
A column of one cell is evaluated to an atom and every other to a list. So the height of the table
is the length of the first list, and one if there is no list.
-/

namespace TableConsole

set_option autoImplicit false

open Text

section Assembling

variable {columns : List (String × List Atom)} {height : Nat}

theorem columnCells_ofAtoms (name : String) (cells : List Atom) :
    columnCells cells.length (name, Value.ofAtoms cells) = .ok (name, cells.map .atom) := by
  match cells with
  | [] | [_] | _ :: _ :: _ => rfl

theorem columnHeight_ofAtoms (hne : columns ≠ []) (h : ∀ c ∈ columns, c.2.length = height) :
    columnHeight (columns.map fun c => (c.1, Value.ofAtoms c.2)) = height := by
  rw [columnHeight, List.findSome?_map]
  by_cases hone : height = 1
  · rw [List.findSome?_eq_none_iff.mpr, Option.getD_none, hone]
    intro c hc
    obtain ⟨a, ha⟩ := List.length_eq_one_iff.mp ((h c hc).trans hone)
    rw [Function.comp_apply, ha, Value.ofAtoms]
  · obtain ⟨⟨name, cells⟩, columns, rfl⟩ := List.exists_cons_of_ne_nil hne
    have hlength : cells.length = height := h _ List.mem_cons_self
    match cells with
    | [] => exact hlength
    | [a] => exact absurd hlength.symm hone
    | a :: b :: cells => exact (List.length_map Value.atom).trans hlength

theorem assemble_ofAtoms (hne : columns ≠ []) (h : ∀ c ∈ columns, c.2.length = height) :
    assemble (columns.map fun c => (c.1, Value.ofAtoms c.2)) =
      ofDefective (Table.ofColumns (columns.map fun c => (c.1, c.2.map Value.atom))) := by
  have hcells : (columns.map fun c => (c.1, Value.ofAtoms c.2)).mapM (columnCells height) =
      .ok (columns.map fun c => (c.1, c.2.map Value.atom)) := by
    rw [Except.mapM_eq_ok_iff, List.forall₂_map_left_iff, List.forall₂_map_right_iff,
      List.forall₂_same]
    intro c hc
    rw [← h c hc]
    exact columnCells_ofAtoms c.1 c.2
  rw [assemble, columnHeight_ofAtoms hne h, hcells]
  rfl

end Assembling

def Grammar.ColumnPart.ofAtoms (c : String × List Atom) : ColumnPart :=
  ⟨c.1, Token.ofAtoms c.2, Expr.ofAtoms c.2⟩

theorem Grammar.columns_intercalate (ds : List ColumnPart) :
    Columns ds ([.mark .semicolon].intercalate (ds.map ColumnPart.tokens)) := by
  induction ds with
  | nil => exact .none
  | cons d ds ih =>
    cases ds with
    | nil =>
      rw [List.map_singleton, List.intercalate_singleton]
      exact .last d
    | cons d' ds =>
      rw [List.map_cons, List.map_cons, List.intercalate_cons_cons, List.append_assoc]
      exact .more ih

namespace Table

/-- A table with a literal: it has columns, their names are identifiers and no keywords, and every
cell has a literal. -/
structure Writable (t : Table Atom) : Prop where
  wellFormed : t.WellFormed
  columns : t.columns ≠ []
  names : ∀ name ∈ t.columns, (Token.name name).Lexable
  cells : ∀ row ∈ t.rows, ∀ a ∈ row, a.Lexable

instance (t : Table Atom) : Decidable t.Writable :=
  decidable_of_iff
    (t.WellFormed ∧ t.columns ≠ [] ∧ (∀ name ∈ t.columns, (Token.name name).Lexable) ∧
      ∀ row ∈ t.rows, ∀ a ∈ row, (Token.literal a).Lexable)
    ⟨fun ⟨hwellFormed, hcolumns, hnames, hcells⟩ => ⟨hwellFormed, hcolumns, hnames, hcells⟩,
      fun h => ⟨h.wellFormed, h.columns, h.names, h.cells⟩⟩

def columnChars (c : String × List Atom) : List Char :=
  c.1.toList ++ ':' :: ' ' :: Lexer.spaced Atom.chars c.2

def literalChars (t : Table Atom) : List Char :=
  '(' :: '[' :: ']' :: ' ' :: ([';', ' '].intercalate (t.byColumn.map columnChars) ++ [')'])

/-- The columns with semicolons between them, behind an empty list of keys. -/
def literal (t : Table Atom) : String :=
  String.ofList t.literalChars

def literalTokens (t : Table Atom) : List Token :=
  .mark .openParen :: .mark .openBracket :: .mark .closeBracket ::
    ([.mark .semicolon].intercalate
        (t.byColumn.map fun c => (Grammar.ColumnPart.ofAtoms c).tokens) ++
      [.mark .closeParen])

def literalExpr (t : Table Atom) : Expr :=
  .table [] (t.byColumn.map fun c => (c.1, Expr.ofAtoms c.2))

theorem derives_literalTokens (t : Table Atom) :
    Grammar.DerivesExpr 2 t.literalTokens t.literalExpr := by
  have hcolumns := Grammar.columns_intercalate (t.byColumn.map .ofAtoms)
  have hvalues : ∀ d ∈ t.byColumn.map Grammar.ColumnPart.ofAtoms,
      Grammar.DerivesExpr 1 d.value.1 d.value.2 :=
    List.forall_mem_map.mpr fun c _ => Grammar.derives_ofAtoms 0 c.2
  have htable := Grammar.Derives.table .none (List.forall_mem_nil _) hcolumns hvalues
  rw [List.map_map, List.map_map] at htable
  exact htable.expression_of_primary

theorem function_not_mem_literalTokens (t : Table Atom) (source : String) :
    Token.function source ∉ t.literalTokens := by
  have hcolumn (c : String × List Atom) :
      Token.function source ∉ (Grammar.ColumnPart.ofAtoms c).tokens := by
    simp [Grammar.ColumnPart.tokens, Grammar.ColumnPart.ofAtoms,
      Token.function_not_mem_ofAtoms source c.2]
  have hcolumns (columns : List (String × List Atom)) :
      Token.function source ∉ [.mark .semicolon].intercalate
        (columns.map fun c => (Grammar.ColumnPart.ofAtoms c).tokens) := by
    induction columns with
    | nil => exact List.not_mem_nil
    | cons c columns ih =>
      cases columns with
      | nil => simpa using hcolumn c
      | cons d columns => simpa [hcolumn c] using ih
  simp [literalTokens, hcolumns t.byColumn]

open Lexer in
theorem lexes_columnChars {c : String × List Atom} (hname : (Token.name c.1).Lexable)
    (hcells : ∀ a ∈ c.2, a.Lexable) :
    Lexes (columnChars c) (Grammar.ColumnPart.ofAtoms c).tokens := by
  have hspaced : Lexes (spaced Atom.chars c.2) (Token.ofAtoms c.2) :=
    lexes_spaced_atoms fun a ha => (@reads_chars (.literal a) (hcells a ha)).lexes
  have hcolon : Lexes (':' :: ' ' :: spaced Atom.chars c.2) (.mark .colon :: Token.ofAtoms c.2) :=
    .cons (by decide) rfl (hspaced.blank rfl)
  exact (reads_chars hname).lexes.append hcolon (apart_cons (by decide) _)

namespace Writable

variable {t : Table Atom} (h : t.Writable)

include h

open Lexer in
theorem lexes : Lexes t.literalChars t.literalTokens := by
  have hcolumns : ∀ c ∈ t.byColumn,
      Lexes (columnChars c) (Grammar.ColumnPart.ofAtoms c).tokens := by
    intro c hc
    refine lexes_columnChars (h.names c.1 ?_) fun a ha => ?_
    · rw [← t.map_fst_byColumn]
      exact List.mem_map_of_mem hc
    · obtain ⟨row, hrow, ha⟩ := h.wellFormed.columnwise.exists_row_of_mem c hc a ha
      exact h.cells row hrow a ha
  have hseparated :
      Lexes ([';', ' '].intercalate (t.byColumn.map columnChars))
        ([.mark .semicolon].intercalate
          (t.byColumn.map fun c => (Grammar.ColumnPart.ofAtoms c).tokens)) :=
    .intercalate (fun hcs => .cons (by decide) rfl (hcs.blank rfl))
      (fun _ _ _ => apart_cons (by decide) _) hcolumns
  have hclosed := hseparated.append (.cons (by decide) rfl .nil : Lexes [')'] [.mark .closeParen])
    (apart_cons (by decide) [])
  exact .cons (by decide) rfl (.cons (by decide) rfl (.cons (by decide) rfl (hclosed.blank rfl)))

theorem eval (s : Scope) : t.literalExpr.eval s = .ok (.table (t.map .atom)) := by
  have hcolumns (columns : List (String × List Atom)) :
      evalColumns s (columns.map fun c => (c.1, Expr.ofAtoms c.2)) =
        .ok (columns.map fun c => (c.1, Value.ofAtoms c.2)) := by
    induction columns with
    | nil => rfl
    | cons c columns ih =>
      rw [List.map_cons, evalColumns, Expr.eval_ofAtoms, ih]
      rfl
  have hne : t.byColumn ≠ [] := by simpa [byColumn] using h.columns
  have htable : Table.ofColumns (t.byColumn.map fun c => (c.1, c.2.map Value.atom)) =
      .ok (t.map .atom) := by
    rw [← byColumn_map]
    exact ofColumns_byColumn (h.wellFormed.map _) h.columns
  rw [literalExpr, Expr.eval, hcolumns, evalColumns]
  simp only [Except.ok_bind, List.nil_append]
  rw [assemble_ofAtoms hne h.wellFormed.columnwise.length_of_mem, htable]
  rfl

theorem evaluate {settings : Settings} (hmode : settings.mode = .computed) (symbols : Symbols) :
    TableConsole.evaluate settings symbols t.literal =
      (.ok (.value (.table (t.map .atom))), symbols) := by
  have htext : t.literal.toList = t.literalChars := String.toList_ofList
  have htokens : Token.ofText t.literal = .ok t.literalTokens :=
    Token.ofText_of_lexes (htext ▸ h.lexes)
  exact evaluate_of_expression htext (by decide) (by decide +kernel) htokens
    t.function_not_mem_literalTokens t.derives_literalTokens (by decide) (h.eval _)
    fun _ _ => ⟨hmode, _, rfl⟩

end Writable

end Table

/-- Evaluating the literal of a table gives the table. -/
theorem evaluate_tableLiteral {t : Table Atom} (h : t.Writable) {settings : Settings}
    (hmode : settings.mode = .computed) (symbols : Symbols) :
    evaluate settings symbols t.literal = (.ok (.value (.table (t.map .atom))), symbols) :=
  h.evaluate hmode symbols

theorem evaluate_tableLiteral_heights :
    let two : Table Atom :=
      ⟨["Sym", "note", "by1"], [[.symbol "a.1", .text "\"];\\\n", .number 0.1],
        [.symbol "", .text "b: \x7b", .date ⟨7, 1, 31, by decide⟩]]⟩
    let one : Table Atom := ⟨["k", "v"], [[.boolean true, .number 1e21]]⟩
    let none : Table Atom := ⟨["k", "v"], []⟩
    (two.literal = "([] Sym: \x60a.1 \x60; note: \"\\\"];\\\\\\n\" \"b: \x7b\"; " ++
        "by1: 0.1 0007.01.31)" ∧
      evaluate {} Sample.symbols two.literal =
        (.ok (.value (.table (two.map .atom))), Sample.symbols)) ∧
    (one.literal = "([] k: 1b; v: 1000000000000000000000)" ∧
      evaluate {} Sample.symbols one.literal =
        (.ok (.value (.table (one.map .atom))), Sample.symbols)) ∧
    (none.literal = "([] k: (); v: ())" ∧
      evaluate {} Sample.symbols none.literal =
        (.ok (.value (.table (none.map .atom))), Sample.symbols)) := by
  intro two one none
  refine ⟨⟨by decide +kernel, ?_⟩, ⟨by decide +kernel, ?_⟩, by decide +kernel, ?_⟩
  · exact evaluate_tableLiteral (show two.Writable by decide +kernel) rfl Sample.symbols
  · exact evaluate_tableLiteral (show one.Writable by decide +kernel) rfl Sample.symbols
  · exact evaluate_tableLiteral (show none.Writable by decide +kernel) rfl Sample.symbols

end TableConsole
