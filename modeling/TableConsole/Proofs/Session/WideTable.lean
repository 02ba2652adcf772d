import TableConsole.Proofs.Session.Blocks
import TableConsole.Proofs.Session.Splitting
import TableConsole.Proofs.Session.TableLiteral

/-! # A statement that cuts its run short

The literal of a table is one line, and evaluating it gives the table, however wide its column is.
Showing a column of more than the greatest width is what a run does not survive.
-/

namespace TableConsole

set_option autoImplicit false

variable {cell : String} (hcell : ∀ c ∈ cell.toList, Text.isWordChar c = true)

include hcell

theorem Table.literal_text_of_words :
    literal ⟨["a"], [[.text cell]]⟩ = "([] a: \"" ++ cell ++ "\")" := by
  have hplain (c : Char) (hc : c ∈ cell.toList) : Text.escaped c = [c] := by
    have hmarks : ['"', '\\', '\n', '\t', '\r'].all (!Text.isWordChar ·) = true := by decide +kernel
    have hne : ∀ d ∈ ['"', '\\', '\n', '\t', '\r'], c ≠ d := by
      rintro d hd rfl
      simpa [hcell c hc] using List.all_eq_true.mp hmarks c hd
    simp only [List.forall_mem_cons] at hne
    simp [Text.escaped, hne]
  have hescaped : cell.toList.flatMap Text.escaped = cell.toList := by
    rw [List.flatMap_congr hplain, List.flatMap_singleton']
  have hcolumns : byColumn ⟨["a"], [[Atom.text cell]]⟩ = [("a", [.text cell])] := rfl
  apply String.toList_injective
  simp [literal, literalChars, hcolumns, columnChars, Lexer.spaced, Atom.chars, hescaped]

theorem Statement.split_text_of_words (joining : Joining) :
    split joining ("([] a: \"" ++ cell ++ "\")") = ["([] a: \"" ++ cell ++ "\")"] := by
  let line := "([] a: \"".toList ++ cell.toList ++ "\")".toList
  have hline : "([] a: \"" ++ cell ++ "\")" = String.ofList line := by
    apply String.toList_injective
    rw [String.toList_ofList, String.toList_append, String.toList_append]
  have hnot {c : Char} (hmarks : c ∉ "([] a: \"".toList ++ "\")".toList)
      (hword : Text.isWordChar c = false) : c ∉ line := by
    intro h
    obtain h | h := List.mem_append.mp h
    · obtain h | h := List.mem_append.mp h
      · exact hmarks (List.mem_append_left _ h)
      · rw [hcell c h] at hword
        cases hword
    · exact hmarks (List.mem_append_right _ h)
  have hflush : Flush line := by
    refine ⟨hnot (by decide +kernel) (by decide +kernel), fun c hc => ?_⟩
    obtain rfl : c = '(' := by simpa [line] using hc.symm
    rfl
  have hlast : line.getLast? = some ')' := by
    rw [List.getLast?_append_of_ne_nil _ (by decide)]
    rfl
  rw [hline]
  exact split_of_line joining hflush (hnot (by decide +kernel) (by decide +kernel)) hlast rfl
    (by decide)

/-- Nothing of the run is displayed, though the literal is evaluated. -/
theorem Session.run_text_of_words {s : Session} (hmode : s.settings.mode = .computed)
    (hwide : TableText.maxWidth < cell.length) :
    (s.run ("([] a: \"" ++ cell ++ "\")")).1 = none := by
  let t : Table Atom := ⟨["a"], [[.text cell]]⟩
  have hwritable : t.Writable := by
    refine ⟨by simp [t, Table.WellFormed], by simp [t], ?_, ?_⟩
    · exact List.forall_mem_singleton.mpr (by decide +kernel : (Token.name "a").Lexable)
    · exact List.forall_mem_singleton.mpr (List.forall_mem_singleton.mpr trivial)
  have hvalue := hwritable.evaluate hmode s.symbols
  rw [Table.literal_text_of_words hcell] at hvalue
  have hshows : Shows (s.evaluate ("([] a: \"" ++ cell ++ "\")")).1 (t.map .atom) := by
    rw [evaluate_outcome, hvalue]
    exact ⟨_, rfl, rfl⟩
  have htext : (t.map Value.atom).text? = none := Table.text?_eq_none_of_wide "a" hwide
  have hlines := resultLines?_eq_none_iff.mpr ⟨_, hshows, htext⟩
  rw [run_eq_none_iff, statements, Statement.split_text_of_words hcell, trace_cons_of_none hlines]
  simp only [List.mem_singleton, exists_eq_left]
  exact ⟨t.map .atom, hshows, htext⟩

end TableConsole
