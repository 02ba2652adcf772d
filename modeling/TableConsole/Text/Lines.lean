/-! # Lines

A line ends at a line feed, and one carriage return right before that line feed belongs to the
line's end. Text after the last line feed is a line of its own unless it is empty.
-/

namespace TableConsole.Text

set_option autoImplicit false

def lines : List Char → List (List Char)
  | [] => []
  | '\n' :: cs => [] :: lines cs
  | '\r' :: '\n' :: cs => [] :: lines cs
  | c :: cs =>
    match lines cs with
    | [] => [[c]]
    | l :: ls => (c :: l) :: ls

end TableConsole.Text
