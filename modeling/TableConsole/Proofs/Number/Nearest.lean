import TableConsole.Proofs.Number.ReadBack
import TableConsole.Proofs.Number.RelativeError

/-! # Rounding to nearest

An operation on floats computes a mantissa, an exponent and how much is missing, and rounds that to
the format. What comes out of the normal range of the format is a float that differs from the number
by at most half a unit in its last place, which is at most a part of `2 ^ 53` of the number.
-/

namespace TableConsole.Number

open Float.Model Float.Model.UnpackedFloat

set_option autoImplicit false

/-- What a mantissa, its round bit and its sticky bit tell of a number. -/
def Tells : ExtendedMantissa → ℚ → Prop
  | ⟨m, false, false⟩, x => x = m
  | ⟨m, false, true⟩, x => m < x ∧ x < m + 1 / 2
  | ⟨m, true, false⟩, x => x = m + 1 / 2
  | ⟨m, true, true⟩, x => m + 1 / 2 < x ∧ x < m + 1

section Tells

variable {em : ExtendedMantissa} {x : ℚ}

theorem tells_exact (m : Nat) : Tells (.ofMantissaAndAccuracy m .exact) m :=
  rfl

theorem mantissa_ofMantissaAndAccuracy (m : Nat) (accuracy : Accuracy) :
    (ExtendedMantissa.ofMantissaAndAccuracy m accuracy).mantissa = m := by
  obtain _ | _ | _ | _ := accuracy <;> rfl

theorem Tells.le (h : Tells em x) : em.mantissa ≤ x := by
  obtain ⟨m, r, s⟩ := em
  cases r <;> cases s <;> simp only [Tells] at h ⊢ <;> linarith

theorem Tells.lt (h : Tells em x) : x < em.mantissa + 1 := by
  obtain ⟨m, r, s⟩ := em
  cases r <;> cases s <;> simp only [Tells] at h ⊢ <;> linarith

theorem Tells.shiftRightOne (h : Tells em x) : Tells em.shiftRightOne (x / 2) := by
  obtain ⟨m, r, s⟩ := em
  have hm : (m : ℚ) = 2 * (m / 2 : Nat) + (m % 2 : Nat) := by
    exact_mod_cast (Nat.div_add_mod m 2).symm
  rw [ExtendedMantissa.shiftRightOne]
  -- The last bit of the mantissa is the new round bit.
  obtain hbit | hbit := Nat.mod_two_eq_zero_or_one m <;> rw [hbit] at hm ⊢ <;> push_cast at hm <;>
    cases r <;> cases s <;> simp only [Tells] at h
  · exact (by linarith : x / 2 = (m / 2 : Nat))
  · exact (⟨by linarith, by linarith⟩ : ((m / 2 : Nat) : ℚ) < x / 2 ∧ x / 2 < (m / 2 : Nat) + 1 / 2)
  · exact (⟨by linarith, by linarith⟩ : ((m / 2 : Nat) : ℚ) < x / 2 ∧ x / 2 < (m / 2 : Nat) + 1 / 2)
  · exact (⟨by linarith, by linarith⟩ : ((m / 2 : Nat) : ℚ) < x / 2 ∧ x / 2 < (m / 2 : Nat) + 1 / 2)
  · exact (by linarith : x / 2 = (m / 2 : Nat) + 1 / 2)
  · exact (⟨by linarith, by linarith⟩ : (m / 2 : Nat) + 1 / 2 < x / 2 ∧ x / 2 < (m / 2 : Nat) + 1)
  · exact (⟨by linarith, by linarith⟩ : (m / 2 : Nat) + 1 / 2 < x / 2 ∧ x / 2 < (m / 2 : Nat) + 1)
  · exact (⟨by linarith, by linarith⟩ : (m / 2 : Nat) + 1 / 2 < x / 2 ∧ x / 2 < (m / 2 : Nat) + 1)

theorem Tells.shiftRight (h : Tells em x) (n : Nat) : Tells (em >>> n) (x / 2 ^ n) := by
  change Tells (n.repeat ExtendedMantissa.shiftRightOne em) _
  induction n with
  | zero => simpa [Nat.repeat] using h
  | succ n ih =>
    rw [Nat.repeat, pow_succ, ← div_div]
    exact ih.shiftRightOne

theorem Tells.roundedMantissa (h : Tells em x) : |(em.roundedMantissa : ℚ) - x| ≤ 1 / 2 := by
  obtain ⟨m, r, s⟩ := em
  rw [abs_le]
  cases r <;> cases s <;> simp only [Tells] at h <;>
    simp only [ExtendedMantissa.roundedMantissa, ExtendedMantissa.accuracy,
      Accuracy.roundToNearestEven]
  · constructor <;> linarith
  · constructor <;> linarith
  · obtain hbit | hbit := Nat.mod_two_eq_zero_or_one m <;> rw [hbit] <;> push_cast <;>
      constructor <;> linarith
  · push_cast
    constructor <;> linarith

theorem Tells.div_bounds (h : Tells em x) {k : Nat} (hm : 0 < em.mantissa)
    (hlog : em.mantissa.log2 = 52 + k) : (2 : ℚ) ^ 52 ≤ x / 2 ^ k ∧ x / 2 ^ k < 2 ^ 53 := by
  have hlow : 2 ^ (52 + k) ≤ em.mantissa := (Nat.le_log2 hm.ne').mp hlog.ge
  have hhigh : em.mantissa + 1 ≤ 2 ^ (53 + k) := (Nat.log2_lt hm.ne').mp (by omega)
  rw [le_div_iff₀ (by positivity), div_lt_iff₀ (by positivity), ← pow_add, ← pow_add]
  exact ⟨le_trans (by exact_mod_cast hlow) h.le, lt_of_lt_of_le h.lt (by exact_mod_cast hhigh)⟩

theorem Tells.roundedMantissa_bounds (h : Tells em x) (hlow : 2 ^ 52 ≤ x) (hhigh : x < 2 ^ 53) :
    2 ^ 52 ≤ em.roundedMantissa ∧ em.roundedMantissa ≤ 2 ^ 53 := by
  obtain ⟨hdown, hup⟩ := abs_le.mp h.roundedMantissa
  constructor
  · have hlt : (2 ^ 52 : ℚ) < (em.roundedMantissa + 1 : Nat) := by
      push_cast
      linarith
    exact Nat.lt_succ_iff.mp (by exact_mod_cast hlt)
  · have hlt : (em.roundedMantissa : ℚ) < (2 ^ 53 + 1 : Nat) := by
      push_cast
      linarith
    exact Nat.lt_succ_iff.mp (by exact_mod_cast hlt)

end Tells

/-- A normal float, off by at most half a unit in its last place. -/
def RoundedTo (u : UnpackedFloat) (q : ℚ) : Prop :=
  ∃ m e, ∃ hm : 0 < m, u = .finite .positive m e hm ∧ 2 ^ 52 ≤ m ∧ m < 2 ^ 53 ∧ -1074 ≤ e ∧
    Near (2 ^ (-53 : Int)) (binaryValue m e) q

theorem canonical_of_normal {m : Nat} {e : Int} (hlow : 2 ^ 52 ≤ m) (hhigh : m < 2 ^ 53)
    (he : -1074 ≤ e) : Canonical .binary64 m e := by
  have hpos : 0 < m := by omega
  have hlog : m.log2 = 52 := (Nat.log2_eq_iff hpos.ne').mpr ⟨hlow, hhigh⟩
  rw [Canonical, targetExponent_eq, totalExponent, hlog]
  omega

/-- With 53 bits in the format, the carry of a rounding moves the exponent. -/
theorem exists_normal {n : Nat} {e : Int} (hlow : 2 ^ 52 ≤ n) (hhigh : n ≤ 2 ^ 53) :
    ∃ m' e', 2 ^ 52 ≤ m' ∧ m' < 2 ^ 53 ∧ e ≤ e' ∧ binaryValue n e = binaryValue m' e' := by
  obtain hlt | rfl := hhigh.lt_or_eq
  · exact ⟨n, e, hlow, hlt, le_rfl, rfl⟩
  · refine ⟨2 ^ 52, e + 1, le_rfl, by norm_num, by omega, ?_⟩
    have hshift := binaryValue_shift (2 ^ 52) (e + 1) 1
    rw [Nat.cast_one, Int.add_sub_cancel] at hshift
    exact hshift

theorem roundWithAccuracy_near {m : Nat} {e : Int} {accuracy : Accuracy} {x : ℚ}
    (hm : 0 < m) (hx : Tells (.ofMantissaAndAccuracy m accuracy) x)
    (hnormal : -1021 ≤ totalExponent m e) (he : e ≤ totalExponent m e - 53) :
    RoundedTo (roundWithAccuracy .binary64 .positive m e accuracy) (x * 2 ^ e) := by
  obtain ⟨k, hk⟩ := Int.eq_ofNat_of_zero_le (show 0 ≤ totalExponent m e - 53 - e by omega)
  have hlog : m.log2 = 52 + k := by
    rw [totalExponent] at hk
    omega
  have htarget : Format.binary64.targetExponent (totalExponent m e) = e + k := by
    rw [targetExponent_eq]
    omega
  have hmantissa := mantissa_ofMantissaAndAccuracy m accuracy
  obtain ⟨hlow, hhigh⟩ := hx.div_bounds (k := k) (hmantissa.symm ▸ hm) (hmantissa.symm ▸ hlog)
  have hshifted := hx.shiftRight k
  generalize hem : ExtendedMantissa.ofMantissaAndAccuracy m accuracy >>> k = em at hshifted
  have hfirst : shiftToTargetExponent .binary64 m e accuracy = (em, e + k) := by
    have hamount : (e + k - e).toNat = k := by omega
    rw [shiftToTargetExponent, htarget, shiftToExponent, hamount, hem]
  obtain ⟨hlowN, hhighN⟩ := hshifted.roundedMantissa_bounds hlow hhigh
  obtain ⟨m', e', hlow', hhigh', he', hvalue⟩ := exists_normal hlowN hhighN (e := e + k)
  have hm' : 0 < m' := by omega
  have hsecond := shiftToTargetExponent_exact (by omega) hm' hvalue
    (canonical_of_normal hlow' hhigh' (by omega)) he'
  refine ⟨m', e', hm', roundWithAccuracy_eq hfirst hsecond hm', hlow', hhigh', by omega, ?_⟩
  have hscale : x * 2 ^ e = x / 2 ^ k * 2 ^ (e + k) := by
    rw [zpow_add₀ (by norm_num), zpow_natCast]
    field_simp
  have hunit : (0 : ℚ) < 2 ^ (e + k) := by positivity
  rw [Near, ← hvalue, binaryValue, hscale, ← sub_mul, abs_mul, abs_of_pos hunit, ← mul_assoc]
  refine mul_le_mul_of_nonneg_right ?_ hunit.le
  calc |(em.roundedMantissa : ℚ) - x / 2 ^ k| ≤ 1 / 2 := hshifted.roundedMantissa
    _ = 2 ^ (-53 : Int) * 2 ^ 52 := by norm_num
    _ ≤ 2 ^ (-53 : Int) * (x / 2 ^ k) := mul_le_mul_of_nonneg_left hlow (by positivity)

theorem round_near {m : Nat} {e : Int} (hm : 0 < m) (hnormal : -1021 ≤ totalExponent m e) :
    RoundedTo (UnpackedFloat.round .binary64 .positive m e) (binaryValue m e) := by
  have htarget : Format.binary64.targetExponent (totalExponent m e) = totalExponent m e - 53 := by
    rw [targetExponent_eq]
    omega
  generalize hk : (e - (totalExponent m e - 53)).toNat = k
  have hpos : 0 < m * 2 ^ k := Nat.mul_pos hm (Nat.two_pow_pos k)
  have htotal : totalExponent (m * 2 ^ k) (e - k) = totalExponent m e :=
    totalExponent_eq_of_value hpos hm (binaryValue_shift m e k)
  rw [UnpackedFloat.round, decreaseExponent, htarget, hk, Nat.shiftLeft_eq,
    ← binaryValue_shift m e k]
  exact roundWithAccuracy_near hpos (tells_exact _) (htotal ▸ hnormal) (by omega)

/-- The float is the number, which is not negative; a zero may have a sign. -/
inductive Denotes (x : Float) : ℚ → Prop
  | zero {s : Sign} (h : x.toModel.unpack = .zero s) : Denotes x 0
  | positive {m : Nat} {e : Int} (h : Represents x m e) : Denotes x (binaryValue m e)

/-- The greatest float. -/
def maxFloat : ℚ :=
  (2 ^ 53 - 1) * 2 ^ (971 : Int)

section Denotes

variable {x y : Float} {p q : ℚ}

theorem Denotes.nonneg (h : Denotes x q) : 0 ≤ q := by
  obtain _ | h := h
  · exact le_rfl
  · exact (binaryValue_pos h.representable.pos).le

theorem Denotes.represents (h : Denotes x q) (hq : 0 < q) :
    ∃ m e, Represents x m e ∧ binaryValue m e = q := by
  obtain _ | h := h
  · exact absurd hq (lt_irrefl 0)
  · exact ⟨_, _, h, rfl⟩

theorem unpack_pack_zero (s : Sign) : (Float.Model.pack (.zero s)).unpack = .zero s := by
  cases s <;> rfl

theorem pack_of_large {s : Sign} {m : Nat} {e : Int} (hm : 0 < m) (he : 972 ≤ e) :
    Float.Model.pack (.finite s m e hm) = Float.Model.pack (.infinity s) := by
  have hbias : ((Format.binary64.exponentBias : Nat) : Int) = 1023 := rfl
  have hwidth : ((Format.binary64.mantissaBitsWithoutImplicit : Nat) : Int) = 52 := rfl
  have hpack : UnpackedFloat.pack .binary64 (.finite s m e hm) = packedInfinity .binary64 s := by
    delta UnpackedFloat.pack
    dsimp only
    rw [hbias, hwidth]
    exact if_pos (by change 2048 ≤ (e + 1023 + 52).toNat + 1; omega)
  rw [Float.Model.pack, Float.Model.pack, Float.Model.mk.injEq, hpack]
  rfl

theorem RoundedTo.denotes {u : UnpackedFloat} (h : RoundedTo u q) (hq : q ≤ maxFloat) :
    ∃ r, Denotes (.ofModel (.pack u)) r ∧ Near (2 ^ (-53 : Int)) r q := by
  obtain ⟨m, e, hm, rfl, hlow, hhigh, he, hnear⟩ := h
  have hmax : e ≤ 971 := by
    by_contra hlarge
    have hvalue : (2 : ℚ) ^ 53 * 2 ^ (971 : Int) ≤ binaryValue m e :=
      calc (2 : ℚ) ^ 53 * 2 ^ (971 : Int) = 2 ^ 52 * 2 ^ (971 + 1 : Int) := by
            rw [zpow_add_one₀ (by norm_num)]
            ring
        _ ≤ (m : ℚ) * 2 ^ e := by
            gcongr
            · exact_mod_cast hlow
            · norm_num
            · omega
    have hunit : (0 : ℚ) < 2 ^ (971 : Int) := zpow_pos (by norm_num) _
    have hle := hnear.le.trans (mul_le_mul_of_nonneg_left hq (by positivity))
    rw [maxFloat, ← mul_assoc] at hle
    exact absurd (hvalue.trans hle) (not_le.mpr (mul_lt_mul_of_pos_right (by norm_num) hunit))
  exact ⟨_, .positive (represents_pack ⟨hm, hhigh, he, hmax, .inl hlow⟩), hnear⟩

theorem RoundedTo.denotes_of_isFinite {u : UnpackedFloat} (h : RoundedTo u q)
    (hfinite : (Float.ofModel (.pack u)).isFinite = true) :
    ∃ r, Denotes (.ofModel (.pack u)) r ∧ Near (2 ^ (-53 : Int)) r q := by
  obtain ⟨m, e, hm, rfl, hlow, hhigh, he, hnear⟩ := h
  have hmax : e ≤ 971 := by
    by_contra hlarge
    rw [pack_of_large hm (by omega)] at hfinite
    exact absurd hfinite (by decide)
  exact ⟨_, .positive (represents_pack ⟨hm, hhigh, he, hmax, .inl hlow⟩), hnear⟩

end Denotes

end TableConsole.Number
