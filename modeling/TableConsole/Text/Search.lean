/-! # Searching texts -/

namespace TableConsole.Text

set_option autoImplicit false

/-- The needle stands somewhere in the text. -/
def occurs (needle : List Char) : List Char → Bool
  | [] => needle.isEmpty
  | c :: cs => needle.isPrefixOf (c :: cs) || occurs needle cs

/-- Capital ASCII letters become small. No other letter becomes part of an ASCII word that is
searched for: the Kelvin sign becomes a k and a dotted capital I leaves its dot behind its i. -/
def foldCase (cs : List Char) : List Char :=
  cs.map Char.toLower

def contains (text needle : String) : Bool :=
  occurs needle.toList text.toList

end TableConsole.Text
