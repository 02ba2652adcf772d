import TableConsole.Text.Search

/-! # Built-in functions

The catalogue of built-in functions. An inexact look-up takes the first name that occurs in the
text it is asked for, so a name stands before the names that it contains.
-/

namespace TableConsole

set_option autoImplicit false

inductive Builtin
  | vwap
  | wavg
  | count
  | sum
  | avg
  | min
  | max
  | first
  | last
  | til
  | cols
  deriving DecidableEq, Repr

namespace Builtin

def name : Builtin → String
  | .vwap => "vwap"
  | .wavg => "wavg"
  | .count => "count"
  | .sum => "sum"
  | .avg => "avg"
  | .min => "min"
  | .max => "max"
  | .first => "first"
  | .last => "last"
  | .til => "til"
  | .cols => "cols"

def catalogue : List Builtin :=
  [.vwap, .wavg, .count, .sum, .avg, .min, .max, .first, .last, .til, .cols]

theorem mem_catalogue (b : Builtin) : b ∈ catalogue := by
  cases b <;> decide

def lookup? (name : String) : Option Builtin :=
  catalogue.find? (·.name == name)

theorem lookup?_name (b : Builtin) : lookup? b.name = some b := by
  cases b <;> decide

/-- The first built-in whose name occurs in the text, capitals and small letters alike. -/
def search? (text : String) : Option Builtin :=
  let folded := Text.foldCase text.toList
  catalogue.find? fun b => Text.occurs b.name.toList folded

end Builtin

end TableConsole
