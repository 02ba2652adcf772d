import TableConsole.Number.Binary

/-! # The fewest digits that read back

A positive finite float lies between two neighbours on every decimal grid. Going from the
coarsest grid to finer ones, the first neighbour that reads back as the float has the fewest
digits; of two such neighbours on one grid the nearer one is taken, and an exact tie goes as the
caller says. The result of the search reads back because each candidate is read.
-/

namespace TableConsole.Number

set_option autoImplicit false

structure Digits where
  coefficient : Nat
  exponent : Int
  deriving DecidableEq, Repr

/-- The float nearest to a number written without an exponent. -/
def Digits.toFloat (d : Digits) : Float :=
  if 0 ≤ d.exponent then Float.ofScientific (d.coefficient * Nat.pow 10 d.exponent.toNat) false 0
  else Float.ofScientific d.coefficient true (-d.exponent).toNat

def Digits.readsBack (d : Digits) (x : Float) : Bool :=
  d.toFloat.toBits == x.toBits

inductive Tie
  | up
  | toEven
  deriving DecidableEq, Repr

def decimalLength (n : Nat) : Nat :=
  (Nat.toDigits 10 n).length

/-- The least `k` with `num / den < 10 ^ k`, for a positive ratio. -/
def decimalMagnitude (num den : Nat) : Int :=
  if den ≤ num then decimalLength (num / den) else 1 - (decimalLength ((den - 1) / num) : Int)

/-- The neighbours of `num / den` among the multiples of `10 ^ exponent`, preferred one first; those
farther off than half of `unit / den` are left out. -/
def neighbours (tie : Tie) (num den unit : Nat) (exponent : Int) : List Digits :=
  let num := num * Nat.pow 10 (-exponent).toNat
  let unit := unit * Nat.pow 10 (-exponent).toNat
  let den := den * Nat.pow 10 exponent.toNat
  let below := num / den
  let rest := num % den
  let lower : List Digits := if 2 * rest ≤ unit then [⟨below, exponent⟩] else []
  let upper : List Digits :=
    if rest ≠ 0 ∧ 2 * (den - rest) ≤ unit then [⟨below + 1, exponent⟩] else []
  if 2 * rest < den ∨ (2 * rest = den ∧ tie = .toEven ∧ below % 2 = 0) then lower ++ upper
  else upper ++ lower

/-- A decimal that reads back is at most half a unit of the last binary place away, and seventeen
significant digits suffice for one. -/
def searchShortest (tie : Tie) (b : Binary) (x : Float) : Option Digits :=
  let k := decimalMagnitude b.numerator b.denominator
  (List.range 18).findSome? fun (n : Nat) =>
    (neighbours tie b.numerator b.denominator b.unit (k - (n : Int))).find? (·.readsBack x)

def Binary.digits (b : Binary) : Digits :=
  ⟨b.significand * b.unit * Nat.pow 5 (-b.exponent).toNat, min b.exponent 0⟩

/-- The shortest decimal of a positive finite float; were there none of at most seventeen digits,
the exact expansion would stand in. -/
def shortest (tie : Tie) (b : Binary) (x : Float) : Digits :=
  (searchShortest tie b x).getD b.digits

theorem eq_of_toBits_eq {x y : Float} (h : x.toBits = y.toBits) : x = y := by
  obtain ⟨x, hx⟩ := x
  obtain ⟨y, hy⟩ := y
  cases h
  rfl

theorem toFloat_of_searchShortest {tie : Tie} {b : Binary} {x : Float} {d : Digits}
    (h : searchShortest tie b x = some d) : d.toFloat = x := by
  obtain ⟨n, _, hn⟩ := List.exists_of_findSome?_eq_some h
  have hd := List.find?_some hn
  exact eq_of_toBits_eq (by simpa [Digits.readsBack] using hd)

end TableConsole.Number
