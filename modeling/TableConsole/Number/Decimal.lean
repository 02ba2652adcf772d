import TableConsole.Number.Binary

/-! # Scaled decimals

A decimal is a signed coefficient below `2 ^ 96` divided by a power of ten of at most 28. Sums,
differences and products are exact where they fit and otherwise lose digits at the end, rounded
half to even; a quotient is developed digit by digit until it ends or the coefficient is full.
-/

namespace TableConsole.Number

set_option autoImplicit false

structure Decimal where
  negative : Bool
  coefficient : Nat
  scale : Nat
  deriving DecidableEq, Repr

namespace Decimal

def maxCoefficient : Nat := Nat.pow 2 96 - 1

def maxScale : Nat := 28

def zero : Decimal := ⟨false, 0, 0⟩

/-- Trades `steps` binary places for decimal ones. A place goes away by halving where the
coefficient is even, and becomes a decimal one by a factor of five where that fits; where it does
not fit, the odd coefficient is halved and its last bit is lost. -/
def tradeHalves : Nat → Nat → Nat → Nat × Nat
  | 0, m, places => (m, places)
  | steps + 1, m, places =>
    if m % 2 = 0 then tradeHalves steps (m / 2) (places - 1)
    else if 5 * m ≤ maxCoefficient then tradeHalves steps (5 * m) places
    else tradeHalves steps (m / 2) (places - 1)

/-- Drops the last digit, a five or more rounding up. -/
def dropDigit (m : Nat) : Nat :=
  if 5 ≤ m % 10 then m / 10 + 1 else m / 10

/-- Drops digits until at most 28 places are left; a coefficient that is used up is zero. -/
def limitPlaces : Nat → Nat → Nat × Nat
  | 0, m => (m, 0)
  | places + 1, m =>
    if places + 1 ≤ maxScale then (m, places + 1)
    else if m / 10 = 0 then (0, 0)
    else limitPlaces places (dropDigit m)

def limitDigits : Nat → Nat → Nat × Nat
  | 0, m => (m, 0)
  | places + 1, m => if m < Nat.pow 2 52 then (m, places + 1) else limitDigits places (dropDigit m)

def dropZeros : Nat → Nat → Nat × Nat
  | 0, m => (m, 0)
  | places + 1, m => if m % 10 = 0 then dropZeros places (m / 10) else (m, places + 1)

/-- A whole float below `2 ^ 96` converts exactly; other floats keep about sixteen significant
digits, and whole floats from `2 ^ 96` on do not convert. -/
def ofFloat? (x : Float) : Option Decimal := do
  let b ← Binary.ofFloat? x
  if b.significand = 0 then some ⟨b.negative, 0, 0⟩
  else if 0 ≤ b.exponent then
    let m := b.significand * Nat.pow 2 b.exponent.toNat
    if m ≤ maxCoefficient then some ⟨b.negative, m, 0⟩ else none
  else
    let (m, places) := tradeHalves (-b.exponent).toNat b.significand (-b.exponent).toNat
    let (m, places) := limitPlaces places m
    let (m, places) := limitDigits places m
    let (m, places) := dropZeros places m
    some ⟨b.negative, m, places⟩

/-- Powers by squaring, low bits of the exponent first. -/
def powerFrom : Nat → Float → Float → Nat → Float
  | 0, acc, _, _ => acc
  | steps + 1, acc, a, n =>
    powerFrom steps (if n % 2 = 1 then acc * a else acc) (a * a) (n / 2)

def tenPower (n : Nat) : Float :=
  powerFrom (n.log2 + 1) 1 10 n

def toFloat (d : Decimal) : Float :=
  let magnitude :=
    if d.scale = 0 then Float.ofNat d.coefficient
    else
      let unit := Nat.pow 10 d.scale
      let whole := Float.ofNat (d.coefficient / unit)
      let part := Float.ofNat (d.coefficient % unit) / Float.ofNat unit
      if part == 0 then whole
      else roundHalfAway ((whole + part) * tenPower d.scale) / tenPower d.scale
  if d.negative && d.coefficient != 0 then -magnitude else magnitude

/-- A quotient rounded to the nearest natural number, a half to the even one. -/
def divHalfEven (m n : Nat) : Nat :=
  if n < 2 * (m % n) ∨ (2 * (m % n) = n ∧ m / n % 2 = 1) then m / n + 1 else m / n

/-- The first of the scales `kept`, `kept - 1`, … at which the rounded coefficient fits. -/
def fitFrom (m scale : Nat) : Nat → Option (Nat × Nat)
  | 0 =>
    let q := divHalfEven m (Nat.pow 10 scale)
    if q ≤ maxCoefficient then some (q, 0) else none
  | kept + 1 =>
    let q := divHalfEven m (Nat.pow 10 (scale - (kept + 1)))
    if q ≤ maxCoefficient then some (q, kept + 1) else fitFrom m scale kept

def fit? (negative : Bool) (m scale : Nat) : Option Decimal := do
  let (q, scale) ← fitFrom m scale (min scale maxScale)
  some ⟨negative && q != 0, q, scale⟩

def neg (d : Decimal) : Decimal :=
  ⟨!d.negative, d.coefficient, d.scale⟩

def add? (a b : Decimal) : Option Decimal :=
  if a.coefficient = 0 then some b
  else if b.coefficient = 0 then some a
  else
    let scale := max a.scale b.scale
    let signed (d : Decimal) : Int :=
      let m : Int := d.coefficient * Nat.pow 10 (scale - d.scale)
      if d.negative then -m else m
    let total := signed a + signed b
    fit? (total < 0) total.natAbs scale

def sub? (a b : Decimal) : Option Decimal :=
  add? a b.neg

def mul? (a b : Decimal) : Option Decimal :=
  if a.coefficient = 0 ∨ b.coefficient = 0 then some zero
  else fit? (a.negative != b.negative) (a.coefficient * b.coefficient) (a.scale + b.scale)

/-- A quotient under development: the coefficient so far, its scale, and whether a remainder was
ever met. -/
structure Quotient where
  coefficient : Nat
  scale : Int
  inexact : Bool

def Quotient.dropDigit? (q : Quotient) (sticky : Bool) : Option Quotient :=
  if q.scale < 1 then none
  else
    let d := q.coefficient % 10
    let rest := q.coefficient / 10
    let up := 5 < d || (d == 5 && (sticky || rest % 2 == 1))
    some ⟨if up then rest + 1 else rest, q.scale - 1, q.inexact⟩

/-- The largest number of digits, at most `limit`, by which `q` can grow. -/
def growth (q : Nat) (scale : Int) : Nat → Nat
  | 0 => 0
  | limit + 1 =>
    if (limit : Int) + 1 + scale ≤ maxScale ∧ q * Nat.pow 10 (limit + 1) ≤ maxCoefficient then limit + 1
    else growth q scale limit

/-- Develops the quotient of `r / n` behind `q`, up to nine digits at a step. -/
def develop (n : Nat) : Nat → Nat → Quotient → Option Quotient
  | 0, _, q => some q
  | steps + 1, r, q =>
    let extend (p : Nat) (inexact : Bool) : Option Quotient :=
      let grown := q.coefficient * Nat.pow 10 p
      if maxCoefficient < grown then none
      else
        let r := r * Nat.pow 10 p
        let q : Quotient := ⟨grown + r / n, q.scale + p, inexact⟩
        if maxCoefficient < q.coefficient then q.dropDigit? (r % n != 0)
        else develop n steps (r % n) q
    if r = 0 then
      if 0 ≤ q.scale then some q else extend (min 9 (-q.scale).toNat) q.inexact
    else
      let p := growth q.coefficient q.scale 9
      if p < 9 ∧ p + q.scale < 0 then none
      else if p = 0 then
        let up := n < 2 * r || (2 * r == n && q.coefficient % 2 == 1)
        let q : Quotient := ⟨if up then q.coefficient + 1 else q.coefficient, q.scale, true⟩
        if maxCoefficient < q.coefficient then q.dropDigit? true else some q
      else extend p true

/-- Removes `k` zeros at the end of `q` if its low bits and its scale allow it. -/
def Quotient.dropZeros (q : Quotient) (bits k : Nat) : Quotient :=
  if q.coefficient % Nat.pow 2 bits = 0 ∧ (k : Int) ≤ q.scale ∧ q.coefficient % Nat.pow 10 k = 0 then
    ⟨q.coefficient / Nat.pow 10 k, q.scale - k, q.inexact⟩
  else q

/-- Zeros are removed in runs of eight, four, two and one, each only where the low bits show that
the coefficient may be divisible. -/
def Quotient.strip (q : Quotient) : Quotient :=
  if q.inexact then
    [(32, 8), (32, 8), (32, 8), (4, 4), (2, 2), (1, 1)].foldl
      (fun q (bits, k) => q.dropZeros bits k) q
  else q

def div? (a b : Decimal) : Option Decimal := do
  if b.coefficient = 0 then none
  else if a.coefficient = 0 then some zero
  else
    let start : Quotient :=
      ⟨a.coefficient / b.coefficient, (a.scale : Int) - b.scale, false⟩
    let q := (← develop b.coefficient 64 (a.coefficient % b.coefficient) start).strip
    some ⟨a.negative != b.negative && q.coefficient != 0, q.coefficient, q.scale.toNat⟩

end Decimal

end TableConsole.Number
