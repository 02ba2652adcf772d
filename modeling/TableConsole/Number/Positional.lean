import TableConsole.Number.Written

/-! # Reading positional notation

The float nearest to a run of digits with an optional fraction. The plain notation of a float is
read back to the float whenever its shortest digits were found by the search.
-/

namespace TableConsole.Number

set_option autoImplicit false

def ofPositional (whole fraction : List Char) : Float :=
  (Digits.mk (Nat.ofDigitChars 10 (whole ++ fraction) 0) (-(fraction.length : Int))).toFloat

theorem ofPositional_whole (d : Digits) (h : 0 ≤ d.exponent) :
    ofPositional (Nat.toDigits 10 (d.coefficient * Nat.pow 10 d.exponent.toNat)) [] = d.toFloat := by
  simp [ofPositional, Digits.toFloat, h, Nat.ofDigitChars_toDigits]

end TableConsole.Number
