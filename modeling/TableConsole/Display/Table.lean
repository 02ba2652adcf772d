import TableConsole.Text.Blank
import TableConsole.Value.Text

/-! # Tables as text

A header, a line of dashes, and one line a row. Columns are as wide as their widest text, with one
space between them; no line ends in blanks. A column of more than 65535 characters is too wide to
be padded: then there is no text.
-/

namespace TableConsole.TableText

set_option autoImplicit false

def widen (widths : List Nat) (fields : List (List Char)) : List Nat :=
  List.zipWith (fun width field => max width field.length) widths fields

def widths (header : List (List Char)) (rows : List (List (List Char))) : List Nat :=
  rows.foldl widen (header.map List.length)

def pad (width : Nat) (field : List Char) : List Char :=
  field ++ List.replicate (width - field.length) ' '

def maxWidth : Nat := 65535

def pad? (width : Nat) (field : List Char) : Option (List Char) :=
  if width ≤ maxWidth then some (pad width field) else none

def line? (widths : List Nat) (fields : List (List Char)) : Option (List Char) :=
  ((widths.zip fields).mapM fun (width, field) => pad? width field).map fun padded =>
    Text.dropBlankEnd ([' '].intercalate padded)

def totalWidth (widths : List Nat) : Nat :=
  widths.foldr (· + ·) 0 + (widths.length - 1)

def linesOf? (widths : List Nat) (header : List (List Char)) (rows : List (List (List Char))) :
    Option (List (List Char)) := do
  let first ← line? widths header
  let rest ← rows.mapM (line? widths)
  some (first :: List.replicate (totalWidth widths) '-' :: rest)

def lines? (t : Table Value) : Option (List (List Char)) :=
  let header := t.columns.map String.toList
  let rows := t.rows.map fun row => row.map fun v => v.cellText.toList
  linesOf? (widths header rows) header rows

end TableConsole.TableText

namespace TableConsole

def Table.text? (t : Table Value) : Option String :=
  (TableText.lines? t).map fun lines => String.ofList (['\n'].intercalate lines)

end TableConsole
