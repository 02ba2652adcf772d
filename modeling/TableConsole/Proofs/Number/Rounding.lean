import Mathlib.Algebra.Order.Field.Power
import Mathlib.Algebra.Order.Ring.Rat
import Mathlib.Tactic.FieldSimp
import Mathlib.Tactic.Linarith
import Mathlib.Tactic.Ring

/-! # Exact rounding

The operations on floats compute a mantissa, an exponent and how much is missing, and round that to
the format. A number that the format represents comes out as it is: nothing is missing, and the
shift to the exponent that the format asks for loses only zeros.
-/

namespace TableConsole.Number

open Float.Model Float.Model.UnpackedFloat

set_option autoImplicit false

/-- The number `mantissa * 2 ^ exponent`. -/
def binaryValue (mantissa : Nat) (exponent : Int) : ℚ :=
  mantissa * 2 ^ exponent

section Value

variable {m m' : Nat} {e e' : Int}

theorem binaryValue_pos (hm : 0 < m) : 0 < binaryValue m e := by
  have hm : (0 : ℚ) < m := by exact_mod_cast hm
  exact mul_pos hm (zpow_pos (by norm_num) e)

theorem binaryValue_lt_iff (hm : 0 < m) (k : Int) :
    binaryValue m e < 2 ^ k ↔ totalExponent m e ≤ k := by
  have hscale : binaryValue m e < 2 ^ k ↔ (m : ℚ) < 2 ^ (k - e) := by
    rw [binaryValue, ← lt_div_iff₀ (zpow_pos (by norm_num) e), zpow_sub₀ (by norm_num)]
  rw [hscale, totalExponent]
  by_cases hk : 0 ≤ k - e
  · obtain ⟨n, hn⟩ := Int.eq_ofNat_of_zero_le hk
    have hlog : (m : ℚ) < 2 ^ (k - e) ↔ m.log2 < n := by
      rw [hn, Nat.log2_lt hm.ne', zpow_natCast]
      exact_mod_cast Iff.rfl
    rw [hlog]
    omega
  · have hone : (1 : ℚ) ≤ m := by exact_mod_cast hm
    have hsmall : (2 : ℚ) ^ (k - e) ≤ 1 := zpow_le_one_of_nonpos₀ (by norm_num) (by omega)
    constructor
    · intro hlt
      linarith
    · intro hle
      omega

theorem totalExponent_eq_of_value (hm : 0 < m) (hm' : 0 < m')
    (h : binaryValue m e = binaryValue m' e') : totalExponent m e = totalExponent m' e' := by
  apply le_antisymm
  · rw [← binaryValue_lt_iff hm, h, binaryValue_lt_iff hm']
  · rw [← binaryValue_lt_iff hm', ← h, binaryValue_lt_iff hm]

theorem eq_mul_of_value (h : binaryValue m e = binaryValue m' e') (he : e ≤ e') :
    m = m' * 2 ^ (e' - e).toNat := by
  have hshift : ((e' - e).toNat : Int) = e' - e := Int.toNat_of_nonneg (by omega)
  have hm : (m : ℚ) = m' * 2 ^ (e' - e) := by
    rw [binaryValue, binaryValue] at h
    rw [zpow_sub₀ (by norm_num), ← mul_div_assoc, ← h]
    field_simp
  rw [← hshift, zpow_natCast] at hm
  exact_mod_cast hm

end Value

theorem shiftRightOne_even (m : Nat) :
    ExtendedMantissa.shiftRightOne ⟨2 * m, false, false⟩ = ⟨m, false, false⟩ := by
  simp [ExtendedMantissa.shiftRightOne]

theorem shiftRight_exact (m n : Nat) :
    (⟨m * 2 ^ n, false, false⟩ : ExtendedMantissa) >>> n = ⟨m, false, false⟩ := by
  change n.repeat ExtendedMantissa.shiftRightOne ⟨m * 2 ^ n, false, false⟩ = _
  induction n generalizing m with
  | zero => simp [Nat.repeat]
  | succ n ih =>
    rw [Nat.repeat, Nat.pow_succ, ← Nat.mul_assoc, Nat.mul_right_comm, ih, Nat.mul_comm,
      shiftRightOne_even]

/-- The exponent is the one that the format asks for. -/
def Canonical (spec : Format) (m : Nat) (e : Int) : Prop :=
  e = spec.targetExponent (totalExponent m e)

section Rounding

variable {spec : Format} {m m' m₁ : Nat} {e e' e₁ : Int}

theorem shiftToTargetExponent_exact (hm : 0 < m) (hm' : 0 < m')
    (h : binaryValue m e = binaryValue m' e') (hcanonical : Canonical spec m' e') (he : e ≤ e') :
    shiftToTargetExponent spec m e .exact = (⟨m', false, false⟩, e') := by
  have htarget : spec.targetExponent (totalExponent m e) = e' := by
    rw [totalExponent_eq_of_value hm hm' h]
    exact hcanonical.symm
  have hshift : ((e' - e).toNat : Int) = e' - e := Int.toNat_of_nonneg (by omega)
  simp only [shiftToTargetExponent, shiftToExponent, htarget, ExtendedMantissa.ofMantissaAndAccuracy]
  rw [eq_mul_of_value h he, shiftRight_exact, hshift]
  exact Prod.ext rfl (by dsimp only; omega)

theorem roundWithAccuracy_eq {sign : Sign} {accuracy : Accuracy} {em : ExtendedMantissa}
    (hfirst : shiftToTargetExponent spec m e accuracy = (em, e'))
    (hsecond : shiftToTargetExponent spec em.roundedMantissa e' .exact = (⟨m₁, false, false⟩, e₁))
    (hm₁ : 0 < m₁) : roundWithAccuracy spec sign m e accuracy = .finite sign m₁ e₁ hm₁ := by
  rw [roundWithAccuracy, hfirst]
  dsimp only
  rw [hsecond]
  exact dif_neg hm₁.ne'

theorem roundWithAccuracy_exact (sign : Sign) (hm : 0 < m) (hm' : 0 < m')
    (h : binaryValue m e = binaryValue m' e') (hcanonical : Canonical spec m' e') (he : e ≤ e') :
    roundWithAccuracy spec sign m e .exact = .finite sign m' e' hm' :=
  roundWithAccuracy_eq (shiftToTargetExponent_exact hm hm' h hcanonical he)
    (shiftToTargetExponent_exact hm' hm' rfl hcanonical le_rfl) hm'

end Rounding

section Operations

variable {spec : Format} {m m₁ m₂ : Nat} {e e₁ e₂ : Int}

theorem binaryValue_mul :
    binaryValue (m₁ * m₂) (e₁ + e₂) = binaryValue m₁ e₁ * binaryValue m₂ e₂ := by
  rw [binaryValue, binaryValue, binaryValue, zpow_add₀ (by norm_num)]
  push_cast
  ring

theorem binaryValue_shift (m : Nat) (e : Int) (k : Nat) :
    binaryValue (m * 2 ^ k) (e - k) = binaryValue m e := by
  rw [binaryValue, binaryValue, zpow_sub₀ (by norm_num), zpow_natCast]
  push_cast
  field_simp

theorem mul_exact (s₁ s₂ : Sign) (h₁ : 0 < m₁) (h₂ : 0 < m₂) (hm : 0 < m)
    (h : binaryValue m₁ e₁ * binaryValue m₂ e₂ = binaryValue m e) (hcanonical : Canonical spec m e)
    (he : e₁ + e₂ ≤ e) :
    UnpackedFloat.mul spec (.finite s₁ m₁ e₁ h₁) (.finite s₂ m₂ e₂ h₂) =
      .finite (s₁ * s₂) m e hm :=
  roundWithAccuracy_exact _ (Nat.mul_pos h₁ h₂) hm (binaryValue_mul.trans h) hcanonical he

theorem targetExponent_mono {a b : Int} (h : a ≤ b) :
    spec.targetExponent a ≤ spec.targetExponent b := by
  simp only [Format.targetExponent]
  omega

theorem div_exact (s₁ s₂ : Sign) (h₁ : 0 < m₁) (h₂ : 0 < m₂) (hm : 0 < m)
    (h : binaryValue m₁ e₁ = binaryValue m e * binaryValue m₂ e₂) (hcanonical : Canonical spec m e) :
    UnpackedFloat.div spec (.finite s₁ m₁ e₁ h₁) (.finite s₂ m₂ e₂ h₂) =
      .finite (s₁ / s₂) m e hm := by
  have htotal : totalExponent m₁ e₁ ≤ totalExponent m e + totalExponent m₂ e₂ := by
    rw [← binaryValue_lt_iff h₁, h, zpow_add₀ (by norm_num)]
    exact mul_lt_mul'' ((binaryValue_lt_iff hm _).mpr le_rfl) ((binaryValue_lt_iff h₂ _).mpr le_rfl)
      (binaryValue_pos hm).le (binaryValue_pos h₂).le
  have htarget : spec.targetExponent (totalExponent m₁ e₁ - totalExponent m₂ e₂) ≤ e :=
    (targetExponent_mono (by omega)).trans_eq hcanonical.symm
  dsimp only [UnpackedFloat.div, divCore]
  rw [Nat.shiftLeft_eq]
  generalize ht : min (e₁ - e₂) (spec.targetExponent (totalExponent m₁ e₁ - totalExponent m₂ e₂)) = t
  have hte : t ≤ e := ht ▸ (min_le_right _ _).trans htarget
  have hshift : ((e₁ - e₂ - t).toNat : Int) = e₁ - e₂ - t :=
    Int.toNat_of_nonneg (by have := ht ▸ min_le_left (e₁ - e₂) _; omega)
  -- The shifted dividend is a multiple of the divisor.
  have hquotient : m₁ * 2 ^ (e₁ - e₂ - t).toNat = m * 2 ^ (e - t).toNat * m₂ := by
    have hvalue : binaryValue (m₁ * 2 ^ (e₁ - e₂ - t).toNat) (t + e₂) = binaryValue m₁ e₁ := by
      rw [← binaryValue_shift m₁ e₁ (e₁ - e₂ - t).toNat, hshift]
      congr 1
      omega
    have heq := eq_mul_of_value (hvalue.trans (h.trans binaryValue_mul.symm)) (by omega)
    rw [heq, Int.add_sub_add_right]
    ring
  have hexact : accuracyOfFraction (m * 2 ^ (e - t).toNat * m₂ % m₂) m₂ = .exact := by
    simp [accuracyOfFraction]
  rw [hquotient, Nat.mul_div_cancel _ h₂, hexact]
  refine roundWithAccuracy_exact _ (Nat.mul_pos hm (Nat.two_pow_pos _)) hm ?_ hcanonical hte
  have hstep : ((e - t).toNat : Int) = e - t := Int.toNat_of_nonneg (by omega)
  rw [← binaryValue_shift m e (e - t).toNat, hstep, Int.sub_sub_self]

theorem round_exact (sign : Sign) (hm₁ : 0 < m₁) (hm : 0 < m)
    (h : binaryValue m₁ e₁ = binaryValue m e) (hcanonical : Canonical spec m e) :
    UnpackedFloat.round spec sign m₁ e₁ = .finite sign m e hm := by
  have htarget : spec.targetExponent (totalExponent m₁ e₁) = e := by
    rw [totalExponent_eq_of_value hm₁ hm h]
    exact hcanonical.symm
  rw [UnpackedFloat.round, decreaseExponent]
  dsimp only
  rw [htarget, Nat.shiftLeft_eq]
  exact roundWithAccuracy_exact sign (Nat.mul_pos hm₁ (Nat.two_pow_pos _)) hm
    ((binaryValue_shift m₁ e₁ _).trans h) hcanonical (by omega)

end Operations

end TableConsole.Number
