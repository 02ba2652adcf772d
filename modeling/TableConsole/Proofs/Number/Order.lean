import Mathlib.Algebra.Order.Ring.Int
import Mathlib.Data.Nat.Cast.Order.Ring
import TableConsole.Proofs.Number.Equality

/-! # Order of numbers

The numbers that are not missing stand on a line: the infinities at its ends, the zeros in one place
between the negative and the positive numbers, and these by exponent and mantissa. Two of them
compare as their places on the line. A missing number has no place and compares with nothing.
-/

namespace TableConsole.Number

open Float.Model

set_option autoImplicit false

/-- Exponent and mantissa are negated on the negative side. -/
structure Place where
  side : Int
  exponent : Int
  mantissa : Int

def Place.compare : Place → Place → Ordering :=
  compareLex (compareOn side) (compareLex (compareOn exponent) (compareOn mantissa))

instance : Std.TransCmp Place.compare :=
  inferInstanceAs (Std.TransCmp (compareLex _ (compareLex _ _)))

def place : UnpackedFloat → Place
  | .notANumber | .zero _ => ⟨0, 0, 0⟩
  | .infinity .positive => ⟨2, 0, 0⟩
  | .infinity .negative => ⟨-2, 0, 0⟩
  | .finite .positive m e _ => ⟨1, e, m⟩
  | .finite .negative m e _ => ⟨-1, -e, -m⟩

theorem compare_neg (a b : Int) : compare (-a) (-b) = (compare a b).swap := by
  have hanti : StrictAnti fun a : Int => -a := fun _ _ h => Int.neg_lt_neg h
  rw [← cmp_eq_compare, ← cmp_eq_compare, cmp_swap]
  exact hanti.cmp_map_eq a b

theorem compare_natCast (m n : Nat) : compare (m : Int) (n : Int) = compare m n := by
  rw [← cmp_eq_compare, ← cmp_eq_compare]
  exact Nat.strictMono_cast.cmp_map_eq m n

theorem compare_eq_place {x y : UnpackedFloat} (hx : x ≠ .notANumber) (hy : y ≠ .notANumber) :
    x.compare y = some ((place x).compare (place y)) := by
  cases x with
  | notANumber => exact absurd rfl hx
  | infinity s =>
    cases y with
    | notANumber => exact absurd rfl hy
    | infinity s' | zero s' | finite s' => cases s <;> cases s' <;> rfl
  | zero s =>
    cases y with
    | notANumber => exact absurd rfl hy
    | infinity s' | zero s' | finite s' => cases s' <;> rfl
  | finite s m e =>
    cases y with
    | notANumber => exact absurd rfl hy
    | infinity s' | zero s' => cases s <;> cases s' <;> rfl
    | finite s' m' e' =>
      -- Within one side exponent and mantissa decide, in reverse below zero.
      cases s <;> cases s' <;> dsimp only [UnpackedFloat.compare, place]
      · simp [Place.compare, compareLex, compareOn, compare_neg, compare_natCast,
          Ordering.swap_then]
      · rfl
      · rfl
      · simp [Place.compare, compareLex, compareOn, compare_natCast]

def order (x y : Float) : Ordering :=
  (place x.toModel.unpack).compare (place y.toModel.unpack)

instance : Std.TransCmp order where
  eq_swap := by
    unfold order
    exact Std.OrientedCmp.eq_swap
  isLE_trans := by
    unfold order
    exact Std.TransCmp.isLE_trans

theorem lt_iff_compare (x y : Float) :
    x < y ↔ x.toModel.unpack.compare y.toModel.unpack = some .lt := by
  change Float.lt x y = true ↔ _
  rw [Float.lt, decide_eq_true_eq]
  change (x.toModel.unpack.compare y.toModel.unpack == some .lt) = true ↔ _
  rw [beq_iff_eq]

theorem beq_iff_compare (x y : Float) :
    (x == y) = true ↔ x.toModel.unpack.compare y.toModel.unpack = some .eq := by
  change (x.toModel.unpack.compare y.toModel.unpack == some .eq) = true ↔ _
  rw [beq_iff_eq]

theorem isNaN_iff_unpack (x : Float) : x.isNaN = true ↔ x.toModel.unpack = .notANumber :=
  isNaN_iff_eq x.toModel.unpack

variable {x y : Float}

theorem compareNumbers?_of_not_isNaN (hx : x.isNaN = false) (hy : y.isNaN = false) :
    compareNumbers? x y = some (order x y) := by
  rw [← Bool.not_eq_true, isNaN_iff_unpack] at hx hy
  have hswap : order y x = (order x y).swap := Std.OrientedCmp.eq_swap
  rw [order, order] at hswap
  rw [compareNumbers?, order]
  simp only [lt_iff_compare, beq_iff_compare, compare_eq_place hx hy, compare_eq_place hy hx, hswap]
  cases (place x.toModel.unpack).compare (place y.toModel.unpack) <;> rfl

theorem compareNumbers?_of_isNaN (h : x.isNaN = true ∨ y.isNaN = true) :
    compareNumbers? x y = none := by
  rw [isNaN_iff_unpack, isNaN_iff_unpack] at h
  have hleft (u : UnpackedFloat) : UnpackedFloat.notANumber.compare u = none := rfl
  have hright (u : UnpackedFloat) : u.compare .notANumber = none := by cases u <;> rfl
  rw [compareNumbers?]
  simp only [lt_iff_compare, beq_iff_compare]
  obtain h | h := h <;> simp [h, hleft, hright]

theorem compareNumbers?_swap (x y : Float) :
    compareNumbers? y x = (compareNumbers? x y).map Ordering.swap := by
  by_cases h : x.isNaN = true ∨ y.isNaN = true
  · rw [compareNumbers?_of_isNaN h, compareNumbers?_of_isNaN h.symm, Option.map_none]
  · obtain ⟨hx, hy⟩ := not_or.mp h
    rw [Bool.not_eq_true] at hx hy
    rw [compareNumbers?_of_not_isNaN hx hy, compareNumbers?_of_not_isNaN hy hx, Option.map_some]
    exact congrArg some Std.OrientedCmp.eq_swap

end TableConsole.Number
