import TableConsole.Number.Decimal

/-! # Arithmetic

The four operations and the reducers over floats. They work in scaled decimals where the operands
convert and the decimal operation succeeds, so that `0.1 + 0.2` is `0.3`, and in floats elsewhere.
-/

namespace TableConsole.Number

set_option autoImplicit false

inductive Operation
  | add
  | subtract
  | multiply
  | divide
  deriving DecidableEq, Repr

def Operation.onFloats : Operation → Float → Float → Float
  | .add, a, b => a + b
  | .subtract, a, b => a - b
  | .multiply, a, b => a * b
  | .divide, a, b => a / b

def Operation.onDecimals? : Operation → Decimal → Decimal → Option Decimal
  | .add => Decimal.add?
  | .subtract => Decimal.sub?
  | .multiply => Decimal.mul?
  | .divide => Decimal.div?

def Operation.decimal? (op : Operation) (a b : Float) : Option Float := do
  let r ← op.onDecimals? (← Decimal.ofFloat? a) (← Decimal.ofFloat? b)
  some r.toFloat

/-- The decimal result where it lies within a relative `1e-9` of the float result. -/
def Operation.apply (op : Operation) (a b : Float) : Float :=
  let float := op.onFloats a b
  match op.decimal? a b with
  | some r => if (r - float).abs ≤ 1e-9 * float.abs then r else float
  | none => float

def decimalSum? (xs : List Float) : Option Decimal :=
  xs.foldlM (fun total x => do total.add? (← Decimal.ofFloat? x)) Decimal.zero

/-- The decimal sum, or the float sum where a term or a partial sum is out of range. -/
def sum (xs : List Float) : Float :=
  match decimalSum? xs with
  | some total => total.toFloat
  | none => xs.foldl (· + ·) (-0.0)

def quotient (a b : Float) : Float :=
  (Operation.divide.decimal? a b).getD (a / b)

/-- The mean of no numbers is NaN. -/
def mean (xs : List Float) : Float :=
  if xs.isEmpty then nan else quotient (sum xs) (Float.ofNat xs.length)

end TableConsole.Number
