import TableConsole.Date

/-! # Atoms

The values that are written as one literal.
-/

namespace TableConsole

set_option autoImplicit false

inductive Atom
  | number (x : Float)
  | text (s : String)
  | boolean (b : Bool)
  | date (d : Date)
  | symbol (s : String)

end TableConsole
