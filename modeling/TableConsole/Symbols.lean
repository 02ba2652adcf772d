import TableConsole.Json.Basic
import TableConsole.Value.Basic

/-! # Symbols

The names of a session and their values, sorted by name. A name that is bound again keeps its
place and changes its value; no name is ever removed.
-/

namespace TableConsole

set_option autoImplicit false

structure Symbols where
  entries : List (String × Value)

namespace Symbols

def empty : Symbols := ⟨[]⟩

def get? (s : Symbols) (name : String) : Option Value :=
  s.entries.lookup name

def insert (s : Symbols) (name : String) (v : Value) : Symbols :=
  ⟨setEntry name v s.entries⟩

def names (s : Symbols) : List String :=
  s.entries.map (·.1)

def size (s : Symbols) : Nat :=
  s.entries.length

theorem get?_empty (name : String) : empty.get? name = none := rfl

theorem get?_insert (s : Symbols) (name other : String) (v : Value) :
    (s.insert name v).get? other = if other = name then some v else s.get? other :=
  lookup_setEntry name other v s.entries

theorem get?_insert_self (s : Symbols) (name : String) (v : Value) :
    (s.insert name v).get? name = some v := by
  simp [get?_insert]

end Symbols

end TableConsole
