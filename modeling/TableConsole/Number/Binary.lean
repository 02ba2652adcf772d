/-! # Binary fractions

A finite float is `significand * 2 ^ exponent` with a sign. This view decides which natural
number a float equals, and rounds a float to a whole number.
-/

namespace TableConsole.Number

set_option autoImplicit false

structure Binary where
  negative : Bool
  significand : Nat
  exponent : Int

def Binary.ofFloat? (x : Float) : Option Binary :=
  let bits := x.toBits.toNat
  let fraction : Nat := bits % Nat.pow 2 52
  let field : Nat := bits / Nat.pow 2 52 % Nat.pow 2 11
  let negative := bits / Nat.pow 2 63 == 1
  if field = 2047 then none
  else if field = 0 then some ⟨negative, fraction, -1074⟩
  else some ⟨negative, Nat.pow 2 52 + fraction, (field : Int) - 1075⟩

/-- The magnitude is `significand * unit / denominator`, and one of the two is 1. -/
def Binary.unit (b : Binary) : Nat :=
  Nat.pow 2 b.exponent.toNat

def Binary.denominator (b : Binary) : Nat :=
  Nat.pow 2 (-b.exponent).toNat

def Binary.numerator (b : Binary) : Nat :=
  b.significand * b.unit

/-- Not a number, which stands for a missing number. -/
def nan : Float :=
  0.0 / 0.0

/-- The natural number that a float equals. -/
def natural? (x : Float) : Option Nat := do
  let b ← Binary.ofFloat? x
  if b.numerator % b.denominator = 0 ∧ (b.numerator = 0 ∨ b.negative = false) then
    some (b.numerator / b.denominator)
  else none

/-- The nearest whole number; a half goes away from zero. -/
def roundHalfAway (x : Float) : Float :=
  match Binary.ofFloat? x with
  | none => x
  | some b =>
    if 0 ≤ b.exponent then x
    else
      let whole := Float.ofNat ((2 * b.numerator + b.denominator) / (2 * b.denominator))
      if b.negative then -whole else whole

end TableConsole.Number
