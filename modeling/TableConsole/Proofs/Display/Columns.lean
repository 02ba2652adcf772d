import Mathlib.Data.List.MinMax
import TableConsole.Proofs.Display.Layout

/-! # The columns of a table

In every line of a displayed table the columns stand at the same places, once the blanks that were
trimmed are back at its end. If no field has a line feed in it or blanks at its end, the fields can
be read off these places.
-/

namespace TableConsole

set_option autoImplicit false

namespace Text

def endsBlank (cs : List Char) : Bool :=
  cs.getLast?.any isBlank

theorem endsBlank_eq_false_iff {cs : List Char} :
    endsBlank cs = false ↔ cs.rtakeWhile isBlank = [] := by
  rw [endsBlank, List.rtakeWhile_eq_nil_iff]
  cases cs with
  | nil => simp
  | cons c cs => simp [List.getLast?_eq_some_getLast]

theorem endsBlank_replicate {c : Char} (h : isBlank c = false) (n : Nat) :
    endsBlank (List.replicate n c) = false := by
  cases n with
  | zero => rfl
  | succ n =>
    rw [endsBlank, List.replicate_succ', List.getLast?_concat]
    exact h

theorem endsBlank_dropBlankEnd (cs : List Char) : endsBlank (dropBlankEnd cs) = false := by
  rw [endsBlank_eq_false_iff, List.rtakeWhile_eq_nil_iff]
  exact List.rdropWhile_last_not isBlank cs

theorem dropBlankEnd_append_spaces {cs : List Char} (h : endsBlank cs = false) (n : Nat) :
    dropBlankEnd (cs ++ List.replicate n ' ') = cs := by
  rw [dropBlankEnd_eq_rdropWhile]
  induction n with
  | zero =>
    rw [List.replicate_zero, List.append_nil, List.rdropWhile_eq_self_iff,
      ← List.rtakeWhile_eq_nil_iff, ← endsBlank_eq_false_iff, h]
  | succ n ih =>
    rw [List.replicate_succ', ← List.append_assoc, List.rdropWhile_concat_pos _ _ _ (by decide), ih]

theorem mem_rtakeWhile_append {c : Char} {cs ds : List Char}
    (h : c ∈ (cs ++ ds).rtakeWhile isBlank) :
    c ∈ cs.rtakeWhile isBlank ∨ c ∈ ds.rtakeWhile isBlank := by
  simp only [List.rtakeWhile, List.mem_reverse] at h ⊢
  rw [List.reverse_append, List.takeWhile_append] at h
  split at h
  · rename_i hall
    obtain h | h := List.mem_append.mp h
    · rw [(List.takeWhile_prefix isBlank).eq_of_length hall]
      exact .inr h
    · exact .inl h
  · exact .inr h

end Text

namespace TableText

theorem length_pad {width : Nat} {field : List Char} (h : field.length ≤ width) :
    (pad width field).length = width := by
  rw [pad, List.length_append, List.length_replicate, Nat.add_sub_cancel' h]

/-- What stands in a line from a place on. -/
def slice (start width : Nat) (l : List Char) : List Char :=
  (l.drop start).take width

/-- Where a column starts: behind the columns and the gaps on its left. -/
def offset (widths : List Nat) (index : Nat) : Nat :=
  ((widths.take index).map (· + 1)).sum

/-- The fields of a line of columns, each without the blanks at its end. -/
def cut : List Nat → List Char → List (List Char)
  | [], _ => []
  | width :: widths, l => Text.dropBlankEnd (l.take width) :: cut widths (l.drop (width + 1))

/-- The fields of a text, line by line but for the dashes, by the widths of its columns. -/
def readBack (widths : List Nat) (text : List Char) : List (List (List Char)) :=
  ((text.splitOn '\n').eraseIdx 1).map fun l => cut widths (pad (totalWidth widths) l)

section Spread

variable {widths : List Nat} {fields : List (List Char)}

/-- The blanks that a line loses are spaces, also where they reach over empty fields and gaps. -/
theorem eq_space_of_mem_rtakeWhile (hend : ∀ field ∈ fields, Text.endsBlank field = false)
    {c : Char} (h : c ∈ (spread widths fields).rtakeWhile Text.isBlank) : c = ' ' := by
  have hspaces {n : Nat} (h : c ∈ (List.replicate n ' ').rtakeWhile Text.isBlank) : c = ' ' :=
    List.eq_of_mem_replicate ((List.rtakeWhile_suffix _ _).subset h)
  induction widths generalizing fields with
  | nil => cases h
  | cons width widths ih =>
    cases fields with
    | nil => cases h
    | cons field fields =>
      obtain ⟨hfield, hfields⟩ := List.forall_mem_cons.mp hend
      rw [spread_cons, pad] at h
      -- The blanks stop at the last field that is not empty, which ends in none itself.
      obtain h | h := Text.mem_rtakeWhile_append h
      · obtain h | h := Text.mem_rtakeWhile_append h
        · rw [Text.endsBlank_eq_false_iff.mp hfield] at h
          cases h
        · exact hspaces h
      · split at h
        · cases h
        · rw [← List.singleton_append] at h
          obtain h | h := Text.mem_rtakeWhile_append h
          · exact hspaces (n := 1) h
          · exact ih hfields h

theorem pad_line (hend : ∀ field ∈ fields, Text.endsBlank field = false) :
    pad (spread widths fields).length (line widths fields) = spread widths fields := by
  have hparts : line widths fields ++ (spread widths fields).rtakeWhile Text.isBlank =
      spread widths fields := List.rdropWhile_append_rtakeWhile
  have hblanks := List.eq_replicate_of_mem fun c (hc : c ∈ (spread widths fields).rtakeWhile _) =>
    eq_space_of_mem_rtakeWhile hend hc
  have hlength := congrArg List.length hparts
  rw [List.length_append] at hlength
  rw [pad, ← hlength, Nat.add_sub_cancel_left, ← hblanks, hparts]

variable (h : List.Forall₂ (fun width field => field.length ≤ width) widths fields)

include h

theorem length_spread : (spread widths fields).length = totalWidth widths := by
  induction h with
  | nil => rfl
  | cons hle hrest ih =>
    rw [spread_cons, List.length_append, length_pad hle]
    cases hrest with
    | nil => rfl
    | cons =>
      simp [ih, totalWidth]
      omega

theorem spread_eq_append {index width : Nat} {field : List Char}
    (hwidth : widths[index]? = some width) (hfield : fields[index]? = some field) :
    ∃ front back, spread widths fields = front ++ (pad width field ++ back) ∧
      front.length = offset widths index ∧
      (index + 1 < widths.length → back.head? = some ' ') := by
  induction h generalizing index with
  | nil => cases hwidth
  | @cons first other widths fields hle hrest ih =>
    cases index with
    | zero =>
      -- What stands behind the first column starts with a gap, if there is another column.
      obtain rfl := Option.some.inj hwidth
      obtain rfl := Option.some.inj hfield
      refine ⟨[], _, spread_cons _ _ _ _, rfl, fun hlt => ?_⟩
      cases hrest with
      | nil => exact absurd hlt (lt_irrefl 1)
      | cons => rfl
    | succ index =>
      obtain ⟨front, back, hsplit, hfront, hback⟩ := ih hwidth hfield
      refine ⟨pad first other ++ ' ' :: front, back, ?_, ?_,
        fun hlt => hback (Nat.lt_of_succ_lt_succ hlt)⟩
      · cases hrest with
        | nil => cases hwidth
        | cons =>
          rw [List.append_assoc, List.cons_append, ← hsplit, spread_cons]
          rfl
      · rw [List.length_append, length_pad hle, List.length_cons, hfront]
        simp [offset]
        omega

theorem cut_spread (hend : ∀ field ∈ fields, Text.endsBlank field = false) :
    cut widths (spread widths fields) = fields := by
  induction h with
  | nil => rfl
  | @cons width field widths fields hle hrest ih =>
    obtain ⟨hfield, hfields⟩ := List.forall_mem_cons.mp hend
    have hwidth := length_pad hle
    have hbehind :
        cut widths ((spread (width :: widths) (field :: fields)).drop (width + 1)) = fields := by
      rw [spread_cons, ← List.drop_drop, List.drop_left' hwidth]
      cases hrest with
      | nil => rfl
      | cons => exact ih hfields
    rw [cut, hbehind, spread_cons, List.take_left' hwidth, pad,
      Text.dropBlankEnd_append_spaces hfield]

end Spread

/-- A line on which every field stands in its column, once the line is as long as the dashes. -/
structure Aligned (t : Table Value) (fields : List (List Char)) (l : List Char) : Prop where
  length : (pad (tableWidth t) l).length = tableWidth t
  column : ∀ index field, fields[index]? = some field →
    slice (offset (columnWidths t) index) (columnWidth t index) (pad (tableWidth t) l) =
      pad (columnWidth t index) field
  gap : ∀ index, index + 1 < t.columns.length →
    (pad (tableWidth t) l)[offset (columnWidths t) index + columnWidth t index]? = some ' '

section Rows

variable {t : Table Value} (h : t.WellFormed) {row : List (List Char)}
  (hrow : row ∈ header t :: body t)

theorem getElem?_columnWidths {index : Nat} (h : index < t.columns.length) :
    (columnWidths t)[index]? = some (columnWidth t index) := by
  rw [columnWidths, List.getElem?_map, List.getElem?_range h, Option.map_some]

include hrow

/-- No field is longer than its column is wide. -/
theorem length_le_columnWidth {index : Nat} {field : List Char}
    (hfield : row[index]? = some field) : field.length ≤ columnWidth t index := by
  have hmem : field.length ∈ (columnFields t index).map List.length :=
    List.mem_map_of_mem (List.mem_filterMap.mpr ⟨row, hrow, hfield⟩)
  exact List.le_max_of_le' 0 hmem le_rfl

include h

theorem length_row : row.length = t.columns.length := by
  obtain rfl | hrow := List.mem_cons.mp hrow
  · exact length_header t
  · exact length_of_mem_body h row hrow

theorem forall₂_columnWidths :
    List.Forall₂ (fun width field => field.length ≤ width) (columnWidths t) row := by
  have hlength : (columnWidths t).length = row.length := by
    rw [length_row h hrow, columnWidths, List.length_map, List.length_range]
  refine List.forall₂_iff_get.mpr ⟨hlength, fun index hwidth hfield => ?_⟩
  have hle := length_le_columnWidth hrow (List.getElem?_eq_getElem hfield)
  simpa [columnWidths] using hle

variable (hend : ∀ field ∈ row, Text.endsBlank field = false)

include hend

theorem pad_tableWidth_line :
    pad (tableWidth t) (line (columnWidths t) row) = spread (columnWidths t) row := by
  rw [← totalWidth_columnWidths, ← length_spread (forall₂_columnWidths h hrow), pad_line hend]

theorem aligned_line : Aligned t row (line (columnWidths t) row) := by
  have hfits := forall₂_columnWidths h hrow
  have hsplit {index : Nat} {field : List Char} (hfield : row[index]? = some field) :=
    spread_eq_append hfits (getElem?_columnWidths
      (length_row h hrow ▸ (List.getElem?_eq_some_iff.mp hfield).1)) hfield
  refine ⟨?_, fun index field hfield => ?_, fun index hindex => ?_⟩ <;>
    rw [pad_tableWidth_line h hrow hend]
  · rw [length_spread hfits, totalWidth_columnWidths]
  · obtain ⟨front, back, heq, hfront, -⟩ := hsplit hfield
    have hlength := length_pad (length_le_columnWidth hrow hfield)
    rw [heq, slice, List.drop_left' hfront, List.take_left' hlength]
  · have hfield := List.getElem?_eq_getElem ((length_row h hrow).symm ▸ Nat.lt_of_succ_lt hindex)
    obtain ⟨front, back, heq, hfront, hback⟩ := hsplit hfield
    have hlength := length_pad (length_le_columnWidth hrow hfield)
    have hcolumns : index + 1 < (columnWidths t).length := by
      rwa [columnWidths, List.length_map, List.length_range]
    rw [heq, ← List.head?_drop, ← List.drop_drop, List.drop_left' hfront, List.drop_left' hlength,
      hback hcolumns]

end Rows

end TableText

open TableText

/-- A table has a text exactly if it fits. The columns line up in it, no line ends in blanks, and all
fields can be read back from the text and the widths, if none of them has a line feed or ends in
blanks. -/
theorem Table.text_columns {t : Table Value} (h : t.WellFormed)
    (hfeed : ∀ field ∈ fields t, '\n' ∉ field)
    (hend : ∀ field ∈ fields t, Text.endsBlank field = false) :
    (t.text?.isSome = true ↔ t.Fits) ∧ ∀ text, t.text? = some text → ∃ first rest,
      text.toList.splitOn '\n' = first :: List.replicate (tableWidth t) '-' :: rest ∧
      List.Forall₂ (Aligned t) (header t :: body t) (first :: rest) ∧
      (∀ l ∈ text.toList.splitOn '\n', Text.endsBlank l = false) ∧
      readBack (columnWidths t) text.toList = header t :: body t := by
  have hrows : ∀ row ∈ header t :: body t, ∀ field ∈ row, Text.endsBlank field = false := by
    refine List.forall_mem_cons.mpr ⟨fun field hfield => ?_, fun row hrow field hfield => ?_⟩
    · exact hend field (List.mem_append_left _ hfield)
    · exact hend field (List.mem_append_right _ (List.mem_flatten_of_mem hrow hfield))
  refine ⟨isSome_text?_iff h, fun text htext => ?_⟩
  have hlines : text.toList.splitOn '\n' = lines t := splitOn_text? h htext hfeed
  refine ⟨_, _, hlines, ?_, ?_, ?_⟩
  · rw [← List.map_cons, List.forall₂_map_right_iff, List.forall₂_same]
    exact fun row hrow => aligned_line h hrow (hrows row hrow)
  · rw [hlines]
    refine List.forall_mem_cons.mpr ⟨Text.endsBlank_dropBlankEnd _, List.forall_mem_cons.mpr
      ⟨Text.endsBlank_replicate (by decide) _, List.forall_mem_map.mpr fun row _ => ?_⟩⟩
    exact Text.endsBlank_dropBlankEnd _
  · rw [readBack, hlines, lines, List.eraseIdx_cons_succ, List.eraseIdx_cons_zero, ← List.map_cons,
      List.map_map]
    refine (List.map_congr_left fun row hrow => ?_).trans (List.map_id _)
    rw [Function.comp_apply, totalWidth_columnWidths, pad_tableWidth_line h hrow (hrows row hrow),
      cut_spread (forall₂_columnWidths h hrow) (hrows row hrow), id]

/-- Characters of two and more bytes, a list in a cell, and a last cell that is empty. -/
theorem Table.text_columns_trailing :
    let t : Table Value := ⟨["größe", "π"],
      [[.list [.atom (.text "é"), .atom (.boolean true)], .atom (.text "")],
        [.atom (.text ""), .atom (.text "≥ 3")]]⟩
    let text := "größe π\n---------\né 1b\n      ≥ 3"
    (t.WellFormed ∧ (∀ field ∈ fields t, '\n' ∉ field) ∧
        ∀ field ∈ fields t, Text.endsBlank field = false) ∧
      t.text? = some text ∧ t.Fits ∧
      (∃ first rest,
        text.toList.splitOn '\n' = first :: List.replicate (tableWidth t) '-' :: rest ∧
        List.Forall₂ (Aligned t) (header t :: body t) (first :: rest)) ∧
      readBack [5, 3] text.toList = header t :: body t := by
  intro t text
  have hformed : t.WellFormed := by decide
  have hfeed : ∀ field ∈ fields t, '\n' ∉ field := by decide +kernel
  have hend : ∀ field ∈ fields t, Text.endsBlank field = false := by decide +kernel
  have hwidths : columnWidths t = [5, 3] := by decide +kernel
  have htext : t.text? = some text := by decide +kernel
  obtain ⟨hfits, hcolumns⟩ := Table.text_columns hformed hfeed hend
  obtain ⟨first, rest, hlines, haligned, -, hback⟩ := hcolumns text htext
  exact ⟨⟨hformed, hfeed, hend⟩, htext, hfits.mp (htext ▸ rfl), ⟨first, rest, hlines, haligned⟩,
    hwidths ▸ hback⟩

theorem Table.text?_eq_none_of_wide (name : String) {cell : String}
    (h : maxWidth < cell.length) : Table.text? ⟨[name], [[.atom (.text cell)]]⟩ = none := by
  let t : Table Value := ⟨[name], [[.atom (.text cell)]]⟩
  have hformed : t.WellFormed := by simp [t, Table.WellFormed]
  have hrow : [cell.toList] ∈ header t :: body t := List.mem_cons_of_mem _ List.mem_cons_self
  have hfield : cell.length ≤ columnWidth t 0 := length_le_columnWidth hrow rfl
  rw [← Option.not_isSome_iff_eq_none, isSome_text?_iff hformed]
  intro hfits
  exact Nat.not_lt.mpr (hfield.trans (hfits _ (by simp [t, columnWidths]))) h

/-- All fields are of the letter `x`, and there is no text to read them back from. -/
theorem Table.text_columns_too_wide :
    let cell := String.ofList (List.replicate (maxWidth + 1) 'x')
    let t : Table Value := ⟨["x"], [[.atom (.text cell)]]⟩
    (∀ field ∈ fields t, ∀ c ∈ field, c = 'x') ∧ t.text? = none := by
  intro cell t
  have hcell : cell.toList = List.replicate (maxWidth + 1) 'x' := String.toList_ofList
  have hfields : fields t = [['x'], cell.toList] := rfl
  refine ⟨?_, Table.text?_eq_none_of_wide "x" ?_⟩
  · rw [hfields, hcell]
    exact List.forall_mem_cons.mpr ⟨fun c => List.mem_singleton.mp,
      List.forall_mem_singleton.mpr fun c => List.eq_of_mem_replicate⟩
  · rw [String.length_ofList, List.length_replicate]
    exact Nat.lt_succ_self _

end TableConsole
