import Mathlib.Algebra.GroupWithZero.Nat
import Mathlib.Data.List.DropRight
import TableConsole.Display.Table
import TableConsole.Proofs.Except
import TableConsole.Proofs.Text.Blank
import TableConsole.Value.Table

/-! # The lines of a table

A table is displayed as a line of its column names, a line of dashes and a line for each row. The
dashes are as many as the widths of the columns and the gaps between them ask for. A name or a cell
is written as it is, so a line feed in it is one more line on the screen. There is a text exactly if
no column is too wide to be padded.
-/

namespace TableConsole

set_option autoImplicit false

theorem Text.length_splitOn (c : Char) (cs : List Char) :
    (cs.splitOn c).length = cs.count c + 1 := by
  induction cs with
  | nil => rfl
  | cons d cs ih =>
    rw [List.splitOn_cons_eq_if_modifyHead, List.count_cons]
    split
    · rw [List.length_cons, ih]
    · rw [List.length_modifyHead, ih]

theorem Text.count_intercalate (c : Char) {lines : List (List Char)} (h : lines ≠ []) :
    ([c].intercalate lines).count c + 1 = (lines.map (List.count c)).sum + lines.length := by
  induction lines with
  | nil => exact absurd rfl h
  | cons line lines ih =>
    cases lines with
    | nil => simp
    | cons next lines =>
      have hrest := ih (List.cons_ne_nil next lines)
      rw [List.intercalate_cons_cons, List.count_append, List.count_append, List.map_cons,
        List.sum_cons, List.length_cons, List.count_singleton_self]
      omega

section FirstLine

variable {c : Char} {line : List Char} (h : c ∉ line)

include h

theorem Text.splitOn_intercalate_cons {lines : List (List Char)} (hne : lines ≠ []) :
    ([c].intercalate (line :: lines)).splitOn c = line :: ([c].intercalate lines).splitOn c := by
  rw [List.intercalate_cons_of_ne_nil hne, List.append_assoc, List.singleton_append,
    List.splitOn_append_cons_self_of_not_mem h]

theorem Text.head?_splitOn_intercalate (lines : List (List Char)) :
    (([c].intercalate (line :: lines)).splitOn c).head? = some line := by
  cases lines with
  | nil => rw [List.intercalate_singleton, List.splitOn_eq_singleton h, List.head?_cons]
  | cons next lines =>
    rw [splitOn_intercalate_cons h (List.cons_ne_nil next lines), List.head?_cons]

end FirstLine

namespace TableText

section Fields

variable (t : Table Value)

def header : List (List Char) :=
  t.columns.map String.toList

def body : List (List (List Char)) :=
  t.rows.map fun row => row.map fun v => v.cellText.toList

def fields : List (List Char) :=
  header t ++ (body t).flatten

def columnFields (index : Nat) : List (List Char) :=
  (header t :: body t).filterMap (·[index]?)

def columnWidth (index : Nat) : Nat :=
  ((columnFields t index).map List.length).foldr max 0

def columnWidths : List Nat :=
  (List.range t.columns.length).map (columnWidth t)

def tableWidth : Nat :=
  (columnWidths t).sum + (t.columns.length - 1)

end Fields

def spread (widths : List Nat) (fields : List (List Char)) : List Char :=
  [' '].intercalate (List.zipWith pad widths fields)

def line (widths : List Nat) (fields : List (List Char)) : List Char :=
  Text.dropBlankEnd (spread widths fields)

def lines (t : Table Value) : List (List Char) :=
  line (columnWidths t) (header t) :: List.replicate (tableWidth t) '-' ::
    (body t).map (line (columnWidths t))

theorem length_widen {widths : List Nat} {row : List (List Char)} (h : row.length = widths.length) :
    (widen widths row).length = widths.length := by
  rw [widen, List.length_zipWith, h, Nat.min_self]

theorem length_foldl_widen {rows : List (List (List Char))} {widths : List Nat}
    (h : ∀ row ∈ rows, row.length = widths.length) :
    (rows.foldl widen widths).length = widths.length := by
  induction rows generalizing widths with
  | nil => rfl
  | cons row rows ih =>
    obtain ⟨hrow, hrows⟩ := List.forall_mem_cons.mp h
    have hlength := length_widen hrow
    rw [List.foldl_cons, ih (by rwa [hlength]), hlength]

theorem getElem?_foldl_widen {rows : List (List (List Char))} {widths : List Nat}
    (h : ∀ row ∈ rows, row.length = widths.length) {index width : Nat}
    (hwidth : widths[index]? = some width) :
    (rows.foldl widen widths)[index]? =
      some (max width (((rows.filterMap (·[index]?)).map List.length).foldr max 0)) := by
  induction rows generalizing widths width with
  | nil => simpa using hwidth
  | cons row rows ih =>
    obtain ⟨hrow, hrows⟩ := List.forall_mem_cons.mp h
    obtain ⟨hlt, -⟩ := List.getElem?_eq_some_iff.mp hwidth
    obtain ⟨field, hfield⟩ : ∃ field, row[index]? = some field :=
      ⟨_, List.getElem?_eq_getElem (hrow ▸ hlt)⟩
    have hwider : (widen widths row)[index]? = some (max width field.length) := by
      rw [widen, List.getElem?_zipWith, hwidth, hfield]
    rw [List.foldl_cons, ih (by rwa [length_widen hrow]) hwider, List.filterMap_cons, hfield,
      List.map_cons, List.foldr_cons, Nat.max_assoc]

variable {t : Table Value}

theorem length_header (t : Table Value) : (header t).length = t.columns.length :=
  List.length_map _

theorem length_of_mem_body (h : t.WellFormed) :
    ∀ row ∈ body t, row.length = t.columns.length := by
  refine List.forall_mem_map.mpr fun row hrow => ?_
  rw [List.length_map, h.2 row hrow]

theorem widths_eq (h : t.WellFormed) : widths (header t) (body t) = columnWidths t := by
  have hrows : ∀ row ∈ body t, row.length = ((header t).map List.length).length := by
    rw [List.length_map, length_header]
    exact length_of_mem_body h
  have hlength : (widths (header t) (body t)).length = (columnWidths t).length := by
    rw [widths, length_foldl_widen hrows, List.length_map, length_header, columnWidths,
      List.length_map, List.length_range]
  refine List.ext_getElem? fun index => ?_
  by_cases hindex : index < t.columns.length
  · have hname := List.getElem?_eq_getElem (length_header t ▸ hindex)
    rw [widths, getElem?_foldl_widen hrows (by rw [List.getElem?_map, hname]; rfl), columnWidths,
      List.getElem?_map, List.getElem?_range hindex, Option.map_some, columnWidth, columnFields,
      List.filterMap_cons, hname, List.map_cons, List.foldr_cons]
  · have hcolumns : (columnWidths t).length ≤ index := by
      simpa [columnWidths] using hindex
    rw [List.getElem?_eq_none hcolumns, List.getElem?_eq_none (hlength ▸ hcolumns)]

theorem totalWidth_columnWidths (t : Table Value) : totalWidth (columnWidths t) = tableWidth t := by
  rw [totalWidth, tableWidth, columnWidths, List.length_map, List.length_range]
  rfl

section Padding

variable {widths : List Nat} {fields : List (List Char)}

theorem line?_eq_some (h : ∀ width ∈ widths, width ≤ maxWidth) :
    line? widths fields = some (line widths fields) := by
  have hpads : ∀ x ∈ widths.zip fields, pad? x.1 x.2 = some (pad x.1 x.2) := fun x hx =>
    if_pos (h x.1 (List.of_mem_zip hx).1)
  rw [line?, Option.mapM_eq_some hpads, List.map_zip_eq_zipWith]
  rfl

theorem line?_eq_none (hlength : fields.length = widths.length) {width : Nat}
    (hmem : width ∈ widths) (hwide : maxWidth < width) : line? widths fields = none := by
  rw [← List.map_fst_zip hlength.ge] at hmem
  obtain ⟨x, hx, rfl⟩ := List.mem_map.mp hmem
  rw [line?, Option.mapM_eq_none_iff.mpr ⟨x, hx, if_neg (Nat.not_le.mpr hwide)⟩]
  rfl

end Padding

end TableText

/-- No column is too wide to be padded. -/
def Table.Fits (t : Table Value) : Prop :=
  ∀ width ∈ TableText.columnWidths t, width ≤ TableText.maxWidth

instance (t : Table Value) : Decidable t.Fits :=
  inferInstanceAs (Decidable (∀ width ∈ TableText.columnWidths t, width ≤ TableText.maxWidth))

namespace TableText

variable {t : Table Value}

theorem lines?_eq (h : t.WellFormed) : lines? t = if t.Fits then some (lines t) else none := by
  change linesOf? (widths (header t) (body t)) (header t) (body t) = _
  rw [widths_eq h, linesOf?, totalWidth_columnWidths]
  split
  · rename_i hfits
    rw [line?_eq_some hfits, Option.mapM_eq_some fun row _ => line?_eq_some hfits]
    rfl
  · rename_i hwide
    have hlength : (header t).length = (columnWidths t).length := by
      rw [length_header, columnWidths, List.length_map, List.length_range]
    obtain ⟨width, hmem, hwide⟩ : ∃ width ∈ columnWidths t, maxWidth < width := by
      simpa [Table.Fits] using hwide
    rw [line?_eq_none hlength hmem hwide]
    rfl

theorem text?_eq (h : t.WellFormed) :
    t.text? =
      if t.Fits then some (String.ofList (['\n'].intercalate (lines t))) else none := by
  rw [Table.text?, lines?_eq h]
  split <;> rfl

theorem isSome_text?_iff (h : t.WellFormed) : t.text?.isSome = true ↔ t.Fits := by
  rw [text?_eq h]
  split <;> simpa

theorem toList_of_text? (h : t.WellFormed) {text : String} (htext : t.text? = some text) :
    text.toList = ['\n'].intercalate (lines t) := by
  rw [text?_eq h] at htext
  split at htext
  · rw [← Option.some.inj htext, String.toList_ofList]
  · cases htext

theorem lines_ne_nil (t : Table Value) : lines t ≠ [] :=
  List.cons_ne_nil _ _

theorem length_lines (t : Table Value) : (lines t).length = t.rows.length + 2 := by
  simp [lines, body]

theorem spread_cons (width : Nat) (widths : List Nat) (field : List Char)
    (fields : List (List Char)) :
    spread (width :: widths) (field :: fields) =
      pad width field ++
        if (List.zipWith pad widths fields).isEmpty then [] else ' ' :: spread widths fields := by
  rw [spread, List.zipWith_cons_cons]
  cases hrest : List.zipWith pad widths fields with
  | nil => simp
  | cons next rest => simp [spread, hrest]

theorem mem_spread {c : Char} {widths : List Nat} {fields : List (List Char)}
    (h : c ∈ spread widths fields) : c = ' ' ∨ ∃ field ∈ fields, c ∈ field := by
  induction widths generalizing fields with
  | nil => cases h
  | cons width widths ih =>
    cases fields with
    | nil => cases h
    | cons field fields =>
      rw [spread_cons, pad, List.append_assoc, List.mem_append, List.mem_append] at h
      obtain h | h | h := h
      · exact .inr ⟨field, List.mem_cons_self, h⟩
      · exact .inl (List.eq_of_mem_replicate h)
      · split at h
        · cases h
        · obtain rfl | h := List.mem_cons.mp h
          · exact .inl rfl
          · obtain heq | ⟨other, hother, hmem⟩ := ih h
            · exact .inl heq
            · exact .inr ⟨other, List.mem_cons_of_mem field hother, hmem⟩

theorem not_mem_line {c : Char} (hc : c ≠ ' ') {fields : List (List Char)}
    (h : ∀ field ∈ fields, c ∉ field) (widths : List Nat) : c ∉ line widths fields := by
  intro hmem
  have htrimmed : line widths fields <+: spread widths fields := List.rdropWhile_prefix _ _
  obtain heq | ⟨field, hfield, hmem⟩ := mem_spread (htrimmed.subset hmem)
  · exact hc heq
  · exact h field hfield hmem

theorem splitOn_text? (h : t.WellFormed) {text : String} (htext : t.text? = some text)
    (hfeed : ∀ field ∈ fields t, '\n' ∉ field) : text.toList.splitOn '\n' = lines t := by
  have hlines : ∀ l ∈ lines t, '\n' ∉ l := by
    refine List.forall_mem_cons.mpr ⟨?_, List.forall_mem_cons.mpr ⟨?_, ?_⟩⟩
    · exact not_mem_line (by decide)
        (fun field hfield => hfeed field (List.mem_append_left _ hfield)) _
    · exact fun hmem => nomatch List.eq_of_mem_replicate hmem
    · refine List.forall_mem_map.mpr fun row hrow => ?_
      exact not_mem_line (by decide) (fun field hfield =>
        hfeed field (List.mem_append_right _ (List.mem_flatten_of_mem hrow hfield))) _
  rw [toList_of_text? h htext, List.splitOn_intercalate '\n' hlines (lines_ne_nil t)]

end TableText

open TableText

/-- A table has a text exactly if it fits. The text has a line for the names, one of dashes and one
for each row, and one more for every line feed in these. The dashes stand in the second line if
there is no line feed in a name. -/
theorem Table.text_lines {t : Table Value} (h : t.WellFormed) :
    (t.text?.isSome = true ↔ t.Fits) ∧ ∀ text, t.text? = some text →
      let broken := text.toList.splitOn '\n'
      broken.length = t.rows.length + 2 + ((TableText.lines t).map (List.count '\n')).sum ∧
        ((∀ name ∈ header t, '\n' ∉ name) →
          broken[1]? = some (List.replicate (tableWidth t) '-')) ∧
        ((∀ field ∈ fields t, '\n' ∉ field) → broken.length = t.rows.length + 2) := by
  refine ⟨isSome_text?_iff h, fun text htext => ?_⟩
  intro broken
  have htoList := toList_of_text? h htext
  refine ⟨?_, fun hheader => ?_, fun hfields => ?_⟩
  · have hcount := Text.count_intercalate '\n' (lines_ne_nil t)
    rw [← htoList, length_lines] at hcount
    rw [Text.length_splitOn, hcount, Nat.add_comm]
  · have hfirst : '\n' ∉ line (columnWidths t) (header t) := not_mem_line (by decide) hheader _
    have hdashes : '\n' ∉ List.replicate (tableWidth t) '-' :=
      fun hmem => nomatch List.eq_of_mem_replicate hmem
    have hbroken : broken = _ := congrArg (List.splitOn '\n') htoList
    rw [hbroken, lines, Text.splitOn_intercalate_cons hfirst (List.cons_ne_nil _ _),
      List.getElem?_cons_succ, ← List.head?_eq_getElem?, Text.head?_splitOn_intercalate hdashes]
  · rw [← length_lines t, ← splitOn_text? h htext hfields]

theorem Table.text_lines_nested :
    let t : Table Value := ⟨["who", "what"],
      [[.atom (.text "a\tb"), .list [.atom (.boolean true), .table ⟨["x", "y"], []⟩]],
        [.atom (.text ""), .atom (.text "")]]⟩
    (t.WellFormed ∧ t.Fits ∧ ∀ field ∈ fields t, '\n' ∉ field) ∧
      ∃ text, t.text? = some text ∧ (text.toList.splitOn '\n').length = 4 ∧
        (text.toList.splitOn '\n')[1]? = some (List.replicate 13 '-') := by
  intro t
  have hformed : t.WellFormed := by decide
  have hfits : t.Fits := by decide +kernel
  have hfields : ∀ field ∈ fields t, '\n' ∉ field := by decide +kernel
  have hwidth : tableWidth t = 13 := by decide +kernel
  obtain ⟨hsome, hlines⟩ := Table.text_lines hformed
  obtain ⟨text, htext⟩ := Option.isSome_iff_exists.mp (hsome.mpr hfits)
  obtain ⟨-, hdashes, hlength⟩ := hlines text htext
  have hnames := hdashes fun name hname => hfields name (List.mem_append_left _ hname)
  exact ⟨⟨hformed, hfits, hfields⟩, text, htext, hlength hfields, hwidth ▸ hnames⟩

/-- One row that takes two lines, and a name that moves the dashes to the third line. -/
theorem Table.text_breaks_lines :
    let cell : Table Value := ⟨["a"], [[.atom (.text "x\ny")]]⟩
    let name : Table Value := ⟨["a\nb"], [[.atom (.text "x")]]⟩
    (cell.WellFormed ∧ name.WellFormed) ∧
      cell.text?.map (fun text => (text.toList.splitOn '\n').length) =
        some (cell.rows.length + 3) ∧
      name.text?.map (fun text => (text.toList.splitOn '\n')[1]?) ≠
        some (some (List.replicate (tableWidth name) '-')) := by
  decide +kernel

end TableConsole
