import Mathlib.Algebra.Order.Field.Basic
import Mathlib.Algebra.Order.Ring.Pow
import Mathlib.Algebra.Order.Ring.Rat
import Mathlib.Tactic.Bound
import Mathlib.Tactic.FieldSimp
import Mathlib.Tactic.GCongr
import Mathlib.Tactic.Linarith
import Mathlib.Tactic.Ring

/-! # Relative errors

What is computed in place of a number that is not negative may be off by a part of the number. The
parts of successive steps add up, but for their products.
-/

namespace TableConsole.Number

set_option autoImplicit false

/-- At most a part `ε` of the number `q` away from it. -/
def Near (ε r q : ℚ) : Prop :=
  |r - q| ≤ ε * q

namespace Near

variable {δ ε p q r p' q' r' : ℚ}

theorem refl (hε : 0 ≤ ε) (hq : 0 ≤ q) : Near ε q q := by
  rw [Near, sub_self, abs_zero]
  exact mul_nonneg hε hq

theorem le (h : Near ε r q) : r ≤ (1 + ε) * q := by
  have := (abs_le.mp h).2
  linarith

theorem ge (h : Near ε r q) : (1 - ε) * q ≤ r := by
  have := (abs_le.mp h).1
  linarith

theorem eq_zero (h : Near ε r 0) : r = 0 := by
  rwa [Near, mul_zero, abs_nonpos_iff, sub_zero] at h

theorem mono (h : Near δ r q) (hle : δ ≤ ε) (hq : 0 ≤ q) : Near ε r q :=
  h.trans (mul_le_mul_of_nonneg_right hle hq)

theorem trans (hq : Near δ q p) (hr : Near ε r q) (hε : 0 ≤ ε) : Near (δ + ε + δ * ε) r p :=
  calc |r - p| ≤ |r - q| + |q - p| := abs_sub_le r q p
    _ ≤ ε * q + δ * p := add_le_add hr hq
    _ ≤ ε * ((1 + δ) * p) + δ * p := by gcongr; exact hq.le
    _ = (δ + ε + δ * ε) * p := by ring

theorem add (hr : Near ε r q) (hr' : Near ε r' q') : Near ε (r + r') (q + q') := by
  rw [Near, add_sub_add_comm, mul_add]
  exact (abs_add_le _ _).trans (add_le_add hr hr')

theorem add_right (h : Near ε r q) (hε : 0 ≤ ε) (hp : 0 ≤ p) : Near ε (r + p) (q + p) :=
  h.add (.refl hε hp)

theorem mul (hr : Near δ r p) (hr' : Near ε r' p') (hp : 0 ≤ p) (hp' : 0 ≤ p') :
    Near (δ + ε + δ * ε) (r * r') (p * p') :=
  calc |r * r' - p * p'| = |(r - p) * p' + p * (r' - p') + (r - p) * (r' - p')| := by ring_nf
    _ ≤ |(r - p) * p'| + |p * (r' - p')| + |(r - p) * (r' - p')| := abs_add_three _ _ _
    _ = |r - p| * p' + p * |r' - p'| + |r - p| * |r' - p'| := by
      rw [abs_mul, abs_mul, abs_mul, abs_of_nonneg hp, abs_of_nonneg hp']
    _ ≤ δ * p * p' + p * (ε * p') + δ * p * (ε * p') := by
      have := (abs_nonneg _).trans hr
      gcongr
      exacts [hr, hr', hr, hr']
    _ = (δ + ε + δ * ε) * (p * p') := by ring

theorem div (hr : Near δ r p) (hr' : Near ε r' p') (hε : ε < 1) (hp : 0 ≤ p) (hp' : 0 < p') :
    Near ((δ + ε) / (1 - ε)) (r / r') (p / p') := by
  have hε₀ : 0 < 1 - ε := sub_pos.mpr hε
  have hpos : 0 < r' := (mul_pos hε₀ hp').trans_le hr'.ge
  have hcross : |r * p' - r' * p| ≤ (δ + ε) * (p * p') :=
    calc |r * p' - r' * p| = |(r - p) * p' + p * (p' - r')| := by ring_nf
      _ ≤ |(r - p) * p'| + |p * (p' - r')| := abs_add_le _ _
      _ = |r - p| * p' + p * |r' - p'| := by
        rw [abs_mul, abs_mul, abs_of_pos hp', abs_of_nonneg hp, abs_sub_comm p' r']
      _ ≤ δ * p * p' + p * (ε * p') := by gcongr; exacts [hr, hr']
      _ = (δ + ε) * (p * p') := by ring
  have hsum : 0 ≤ (δ + ε) * (p * p') := (abs_nonneg _).trans hcross
  calc |r / r' - p / p'| = |r * p' - r' * p| / (r' * p') := by
        rw [div_sub_div _ _ hpos.ne' hp'.ne', abs_div, abs_of_pos (mul_pos hpos hp')]
    _ ≤ (δ + ε) * (p * p') / (r' * p') := by gcongr
    _ ≤ (δ + ε) * (p * p') / ((1 - ε) * p' * p') := by gcongr; exact hr'.ge
    _ = (δ + ε) / (1 - ε) * (p / p') := by field_simp

theorem div_right (h : Near ε r q) {c : ℚ} (hc : 0 < c) : Near ε (r / c) (q / c) := by
  rw [Near, ← sub_div, abs_div, abs_of_pos hc, ← mul_div_assoc]
  exact div_le_div_of_nonneg_right h hc.le

end Near

theorem Near.step {ε total total' exact term : ℚ} {n : Nat}
    (h : Near ((1 + ε) ^ n - 1) total exact) (hstep : Near ε total' (total + term)) (hε : 0 ≤ ε)
    (hterm : 0 ≤ term) : Near ((1 + ε) ^ (n + 1) - 1) total' (exact + term) := by
  have hn : 0 ≤ (1 + ε) ^ n - 1 := sub_nonneg.mpr (one_le_pow₀ (by linarith))
  have h := (h.add_right hn hterm).trans hstep hε
  rwa [show (1 + ε) ^ n - 1 + ε + ((1 + ε) ^ n - 1) * ε = (1 + ε) ^ (n + 1) - 1 by ring] at h

theorem Near.before {ε p q r : ℚ} {n : Nat} (hq : Near ε q p) (hr : Near ((1 + ε) ^ n - 1) r q)
    (hε : 0 ≤ ε) : Near ((1 + ε) ^ (n + 1) - 1) r p := by
  have h := hq.trans hr (sub_nonneg.mpr (one_le_pow₀ (by linarith)))
  rwa [show ε + ((1 + ε) ^ n - 1) + ε * ((1 + ε) ^ n - 1) = (1 + ε) ^ (n + 1) - 1 by ring] at h

/-- The parts of `n` steps add up to at most `b`, and their products hardly count. -/
theorem pow_sub_one_le {ε b : ℚ} (hε : 0 ≤ ε) {n : Nat} (hn : n * ε ≤ b) (hb : b < 1) :
    (1 + ε) ^ n - 1 ≤ b / (1 - b) := by
  have hpositive : 0 < 1 - b := sub_pos.mpr hb
  obtain rfl | hpos := n.eq_zero_or_pos
  · rw [Nat.cast_zero, zero_mul] at hn
    rw [pow_zero, sub_self]
    exact div_nonneg hn hpositive.le
  have hone : (1 : ℚ) ≤ n := by exact_mod_cast hpos
  have hε₁ : ε < 1 := by nlinarith
  have hbernoulli : 1 - n * ε ≤ (1 - ε) ^ n := by
    have := one_add_mul_le_pow (show (-2 : ℚ) ≤ -ε by linarith) n
    rwa [mul_neg, ← sub_eq_add_neg, ← sub_eq_add_neg] at this
  have hproduct : (1 + ε) ^ n * (1 - b) ≤ 1 :=
    calc (1 + ε) ^ n * (1 - b) ≤ (1 + ε) ^ n * (1 - ε) ^ n := by
          gcongr
          exact (sub_le_sub_left hn 1).trans hbernoulli
      _ = (1 - ε ^ 2) ^ n := by rw [← mul_pow]; ring_nf
      _ ≤ 1 := pow_le_one₀ (by nlinarith) (by nlinarith)
  rw [le_div_iff₀ hpositive]
  linarith

/-- Off by a part `ε` and by `τ` more, but for zero. -/
structure Close (ε τ r q : ℚ) : Prop where
  error_le : |r - q| ≤ ε * q + τ
  eq_zero : q = 0 → r = 0

namespace Close

variable {δ ε σ τ p q r q' r' bound : ℚ}

theorem of_near (h : Near ε r q) : Close ε 0 r q :=
  ⟨by rw [add_zero]; exact h, fun hq => (hq ▸ h).eq_zero⟩

theorem mono (h : Close δ σ r q) (hε : δ ≤ ε) (hτ : σ ≤ τ) (hq : 0 ≤ q) : Close ε τ r q :=
  ⟨h.error_le.trans (add_le_add (mul_le_mul_of_nonneg_right hε hq) hτ), h.eq_zero⟩

theorem trans (hq : Close δ σ q p) (hr : Close ε τ r q) (hε : 0 ≤ ε) :
    Close (δ + ε + δ * ε) ((1 + ε) * σ + τ) r p := by
  refine ⟨?_, fun hp => hr.eq_zero (hq.eq_zero hp)⟩
  have hle : q ≤ (1 + δ) * p + σ := by
    have := (abs_le.mp hq.error_le).2
    linarith
  calc |r - p| ≤ |r - q| + |q - p| := abs_sub_le r q p
    _ ≤ ε * q + τ + (δ * p + σ) := add_le_add hr.error_le hq.error_le
    _ ≤ ε * ((1 + δ) * p + σ) + τ + (δ * p + σ) := by gcongr
    _ = (δ + ε + δ * ε) * p + ((1 + ε) * σ + τ) := by ring

theorem add (h : Close ε σ r q) (h' : Close ε τ r' q') (hq : 0 ≤ q) (hq' : 0 ≤ q') :
    Close ε (σ + τ) (r + r') (q + q') := by
  refine ⟨?_, fun hzero => ?_⟩
  · rw [add_sub_add_comm, mul_add, add_add_add_comm]
    exact (abs_add_le _ _).trans (add_le_add h.error_le h'.error_le)
  · rw [h.eq_zero (by linarith), h'.eq_zero (by linarith), add_zero]

theorem div_right (h : Close ε τ r q) {c : ℚ} (hc : 0 < c) : Close ε (τ / c) (r / c) (q / c) := by
  refine ⟨?_, fun hzero => ?_⟩
  · rw [← sub_div, abs_div, abs_of_pos hc, ← mul_div_assoc, ← add_div]
    exact div_le_div_of_nonneg_right h.error_le hc.le
  · rw [h.eq_zero ((div_eq_zero_iff.mp hzero).resolve_right hc.ne'), zero_div]

/-- In numbers that are not small, what comes on top is a part as well. -/
theorem near (h : Close ε τ r q) (hτ : 0 ≤ τ) (hbound : 0 < bound) (hq : q = 0 ∨ bound ≤ q) :
    Near (ε + τ / bound) r q := by
  obtain rfl | hq := hq
  · rw [h.eq_zero rfl, Near]
    simp
  · rw [Near, add_mul]
    refine h.error_le.trans (add_le_add_right ?_ _)
    rw [div_mul_eq_mul_div, le_div_iff₀ hbound]
    exact mul_le_mul_of_nonneg_left hq hτ

end Close

end TableConsole.Number
