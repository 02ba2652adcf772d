import TableConsole.Value.Basic

/-! # Equality and order of values

Two values agree if they have the same shape and their numbers agree in a given sense. Plain
equality compares numbers as floats; key equality, which groups rows, also takes two missing
numbers for equal, but looks at the cells of tables with plain equality.
-/

namespace TableConsole

set_option autoImplicit false

def Atom.agree (same : Float → Float → Bool) : Atom → Atom → Bool
  | .number x, .number y => same x y
  | .text s, .text t => s == t
  | .boolean b, .boolean c => b == c
  | .date d, .date e => d == e
  | .symbol s, .symbol t => s == t
  | _, _ => false

/-- Equality of numbers in which a missing number equals a missing number. -/
def sameNumber (x y : Float) : Bool :=
  x == y || (x.isNaN && y.isNaN)

namespace Value

mutual

def agree (same : Float → Float → Bool) : Value → Value → Bool
  | .atom a, .atom b => a.agree same b
  | .list as, .list bs => itemsAgree same as bs
  | .table s, .table t => tablesEqual s t
  | .function s, .function t => s == t
  | _, _ => false

def itemsAgree (same : Float → Float → Bool) : List Value → List Value → Bool
  | [], [] => true
  | a :: as, b :: bs => agree same a b && itemsAgree same as bs
  | _, _ => false

def tablesEqual : Table Value → Table Value → Bool
  | ⟨columns, rows⟩, t => columns == t.columns && rowsEqual rows t.rows

def rowsEqual : List (List Value) → List (List Value) → Bool
  | [], [] => true
  | a :: as, b :: bs => itemsAgree (· == ·) a b && rowsEqual as bs
  | _, _ => false

end

def equal : Value → Value → Bool :=
  agree (· == ·)

def sameKey : Value → Value → Bool :=
  agree sameNumber

/-- Equality of operands: numbers and booleans by number, the rest as keys. -/
def equals (a b : Value) : Bool :=
  match a.number?, b.number? with
  | some x, some y => x == y
  | _, _ => a.sameKey b

end Value

def compareNumbers? (x y : Float) : Option Ordering :=
  if x < y then some .lt
  else if x == y then some .eq
  else if y < x then some .gt
  else none

/-- Dates, texts, symbols, and numbers with booleans are ordered among themselves. -/
def Atom.compare? : Atom → Atom → Option Ordering
  | .date d, .date e => some (d.compare e)
  | .text s, .text t => some (compare s t)
  | .symbol s, .symbol t => some (compare s t)
  | a, b =>
    match a.number?, b.number? with
    | some x, some y => compareNumbers? x y
    | _, _ => none

def Value.compare? : Value → Value → Option Ordering
  | .atom a, .atom b => a.compare? b
  | _, _ => none

end TableConsole
