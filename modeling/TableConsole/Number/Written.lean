import TableConsole.Number.Shortest

/-! # Written numbers

The shortest digits of a float laid out as text. A `Layout` says which decimal exponents are
written positionally, whether a whole number keeps a point, how a large exponent is signed, and
which way an exact tie between two shortest decimals goes.
-/

namespace TableConsole.Number

set_option autoImplicit false

structure Layout where
  tie : Tie
  /-- The least exponent written positionally and the least one above it that is not; without
  them every exponent is positional. -/
  positional : Option (Int × Int)
  /-- Whole numbers end in a point and a zero. -/
  pointed : Bool
  /-- A large exponent carries a plus sign. -/
  plus : Bool

def Digits.leading (d : Digits) : Int :=
  decimalLength d.coefficient + d.exponent - 1

/-- Every digit in its place, without an exponent. -/
def Digits.positional (d : Digits) (pointed : Bool) : List Char :=
  let digits := Nat.toDigits 10 d.coefficient
  if 0 ≤ d.exponent then
    Nat.toDigits 10 (d.coefficient * Nat.pow 10 d.exponent.toNat) ++ (if pointed then ['.', '0'] else [])
  else
    let places := (-d.exponent).toNat
    if places < digits.length then
      digits.take (digits.length - places) ++ '.' :: digits.drop (digits.length - places)
    else ['0', '.'] ++ List.replicate (places - digits.length) '0' ++ digits

/-- One digit before the point, and the exponent of that digit. -/
def Digits.scientific (d : Digits) (plus : Bool) : List Char :=
  let mantissa :=
    match Nat.toDigits 10 d.coefficient with
    | [] => []
    | [c] => [c]
    | c :: cs => c :: '.' :: cs
  let sign := if d.leading < 0 then ['-'] else if plus then ['+'] else []
  mantissa ++ 'e' :: sign ++ Nat.toDigits 10 d.leading.natAbs

def Layout.isPositional (l : Layout) (d : Digits) : Bool :=
  match l.positional with
  | none => true
  | some (low, high) => d.coefficient == 0 || (low ≤ d.leading && d.leading < high)

def Layout.writeDigits (l : Layout) (d : Digits) : List Char :=
  if l.isPositional d then d.positional l.pointed else d.scientific l.plus

/-- The text of a finite float; an infinity or NaN has none. -/
def Layout.write? (l : Layout) (x : Float) : Option (List Char) := do
  let b ← Binary.ofFloat? x
  let digits := if b.significand = 0 then ⟨0, 0⟩ else shortest l.tie b x.abs
  some ((if b.negative then ['-'] else []) ++ l.writeDigits digits)

def Layout.plain : Layout := ⟨.up, none, false, false⟩

def plain? (x : Float) : Option (List Char) :=
  Layout.plain.write? x

/-- The console's number text: `0n` for NaN, `0w` and `-0w` for the infinities, an unsigned zero,
and the plain notation for the rest. -/
def display (x : Float) : String :=
  if x == 0 then "0"
  else match plain? x with
    | some cs => String.ofList cs
    | none => if x.isNaN then "0n" else if x < 0 then "-0w" else "0w"

end TableConsole.Number
