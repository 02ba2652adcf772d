import TableConsole.Proofs.Number.Nearest

/-! # Errors of operations

In the normal range a sum, a product, a quotient and a natural number as a float are off by at most
a part of `2 ^ 53`. A sum below that range is exact. So the errors of a chain of sums are known from
its length, if it stays finite.
-/

namespace TableConsole.Number

open Float.Model Float.Model.UnpackedFloat

set_option autoImplicit false

variable {x y : Float} {p q : ℚ}

theorem add_eq_round {m₁ m₂ : Nat} {e₁ e₂ : Int} (h₁ : 0 < m₁) (h₂ : 0 < m₂) :
    ∃ m, 0 < m ∧ binaryValue m (min e₁ e₂) = binaryValue m₁ e₁ + binaryValue m₂ e₂ ∧
      UnpackedFloat.add .binary64 (.finite .positive m₁ e₁ h₁) (.finite .positive m₂ e₂ h₂) =
        UnpackedFloat.round .binary64 .positive m (min e₁ e₂) := by
  generalize hk₁ : (e₁ - min e₁ e₂).toNat = k₁
  generalize hk₂ : (e₂ - min e₁ e₂).toNat = k₂
  have hpos : 0 < m₁ * 2 ^ k₁ + m₂ * 2 ^ k₂ :=
    Nat.add_pos_left (Nat.mul_pos h₁ (Nat.two_pow_pos k₁)) _
  refine ⟨m₁ * 2 ^ k₁ + m₂ * 2 ^ k₂, hpos, ?_, ?_⟩
  · have hv₁ := binaryValue_shift m₁ e₁ k₁
    have hv₂ := binaryValue_shift m₂ e₂ k₂
    rw [show e₁ - k₁ = min e₁ e₂ by omega] at hv₁
    rw [show e₂ - k₂ = min e₁ e₂ by omega] at hv₂
    rw [← hv₁, ← hv₂, binaryValue, binaryValue, binaryValue, Nat.cast_add, add_mul]
  · have hcompare : compare ((m₁ * 2 ^ k₁ : Nat) + (m₂ * 2 ^ k₂ : Nat) : Int) 0 = .gt :=
      Int.compare_eq_gt.mpr (by exact_mod_cast hpos)
    dsimp only [UnpackedFloat.add, decreaseExponent, Sign.apply, UnpackedFloat.normalize]
    rw [hk₁, hk₂, Nat.shiftLeft_eq, Nat.shiftLeft_eq, hcompare]
    rfl

theorem add_near {m₁ m₂ : Nat} {e₁ e₂ : Int} (h₁ : 0 < m₁) (h₂ : 0 < m₂)
    (hnormal : 2 ^ (-1022 : Int) ≤ binaryValue m₁ e₁ + binaryValue m₂ e₂) :
    RoundedTo
      (UnpackedFloat.add .binary64 (.finite .positive m₁ e₁ h₁) (.finite .positive m₂ e₂ h₂))
      (binaryValue m₁ e₁ + binaryValue m₂ e₂) := by
  obtain ⟨m, hm, hvalue, hadd⟩ := @add_eq_round m₁ m₂ e₁ e₂ h₁ h₂
  have htotal := mt (binaryValue_lt_iff hm (-1022)).mpr (hvalue ▸ hnormal).not_gt
  rw [hadd, ← hvalue]
  exact round_near hm (by omega)

/-- A sum below the normal range is a multiple of the least float. -/
theorem add_exact {m₁ m₂ : Nat} {e₁ e₂ : Int} (h₁ : Representable m₁ e₁) (h₂ : Representable m₂ e₂)
    (hsmall : binaryValue m₁ e₁ + binaryValue m₂ e₂ < 2 ^ (-1022 : Int)) :
    ∃ m, ∃ h : Representable m (-1074),
      UnpackedFloat.add .binary64 (.finite .positive m₁ e₁ h₁.pos)
          (.finite .positive m₂ e₂ h₂.pos) =
        .finite .positive m (-1074) h.pos ∧
      binaryValue m (-1074) = binaryValue m₁ e₁ + binaryValue m₂ e₂ := by
  obtain ⟨m, hm, hvalue, hadd⟩ := @add_eq_round m₁ m₂ e₁ e₂ h₁.pos h₂.pos
  obtain ⟨k, hk⟩ := Int.eq_ofNat_of_zero_le
    (show 0 ≤ min e₁ e₂ + 1074 by have := h₁.low; have := h₂.low; omega)
  have hshift := binaryValue_shift m (min e₁ e₂) k
  rw [show min e₁ e₂ - k = -1074 by omega] at hshift
  have hpos : 0 < m * 2 ^ k := Nat.mul_pos hm (Nat.two_pow_pos k)
  have hlt : m * 2 ^ k < 2 ^ 53 := by
    have htotal := (binaryValue_lt_iff hpos (-1022)).mp (hshift.trans hvalue ▸ hsmall)
    rw [totalExponent] at htotal
    exact (Nat.log2_lt hpos.ne').mp (by omega)
  have h : Representable (m * 2 ^ k) (-1074) := ⟨hpos, hlt, le_rfl, by omega, .inr rfl⟩
  exact ⟨_, h, hadd.trans (round_exact .positive hm hpos hshift.symm h.canonical),
    hshift.trans hvalue⟩

/-- The sum before it is packed: exact at a zero and below the normal range, else rounded. -/
theorem Denotes.exists_add (hx : Denotes x p) (hy : Denotes y q) :
    ∃ u, x + y = .ofModel (.pack u) ∧
      (Denotes (.ofModel (.pack u)) (p + q) ∨ RoundedTo u (p + q)) := by
  refine ⟨UnpackedFloat.add .binary64 x.toModel.unpack y.toModel.unpack, rfl, ?_⟩
  obtain @⟨s, hx⟩ | @⟨m₁, e₁, hx⟩ := hx
  · obtain @⟨s', hy⟩ | @⟨m₂, e₂, hy⟩ := hy
    · have hadd : UnpackedFloat.add .binary64 (.zero s) (.zero s') =
          .zero (if s == s' then s else .positive) := by cases s <;> cases s' <;> rfl
      rw [hx, hy, hadd, add_zero]
      exact .inl (.zero (unpack_pack_zero _))
    · rw [hx, hy.unpack, zero_add]
      exact .inl (.positive (represents_pack hy.representable))
  · obtain @⟨s', hy⟩ | @⟨m₂, e₂, hy⟩ := hy
    · rw [hx.unpack, hy, add_zero]
      exact .inl (.positive (represents_pack hx.representable))
    · rw [hx.unpack, hy.unpack]
      by_cases hsmall : binaryValue m₁ e₁ + binaryValue m₂ e₂ < 2 ^ (-1022 : Int)
      · obtain ⟨m, h, hadd, hvalue⟩ := add_exact hx.representable hy.representable hsmall
        rw [hadd, ← hvalue]
        exact .inl (.positive (represents_pack h))
      · exact .inr (add_near _ _ (not_lt.mp hsmall))

theorem Denotes.add (hx : Denotes x p) (hy : Denotes y q) (hmax : p + q ≤ maxFloat) :
    ∃ r, Denotes (x + y) r ∧ Near (2 ^ (-53 : Int)) r (p + q) := by
  obtain ⟨u, hu, hexact | hrounded⟩ := hx.exists_add hy
  · exact ⟨_, hu ▸ hexact, .refl (by positivity) hexact.nonneg⟩
  · exact hu ▸ hrounded.denotes hmax

theorem Denotes.add_of_isFinite (hx : Denotes x p) (hy : Denotes y q)
    (hfinite : (x + y).isFinite = true) :
    ∃ r, Denotes (x + y) r ∧ Near (2 ^ (-53 : Int)) r (p + q) := by
  obtain ⟨u, hu, hexact | hrounded⟩ := hx.exists_add hy
  · exact ⟨_, hu ▸ hexact, .refl (by positivity) hexact.nonneg⟩
  · exact hu ▸ hrounded.denotes_of_isFinite (hu ▸ hfinite)

theorem le_maxFloat (h : q ≤ 2 ^ 200) : q ≤ maxFloat := by
  have hpower : (2 : ℚ) ^ (200 : Int) ≤ 2 ^ (971 : Int) := by
    gcongr <;> norm_num
  rw [zpow_ofNat] at hpower
  rw [maxFloat]
  exact (h.trans hpower).trans (le_mul_of_one_le_left (by positivity) (by norm_num))

theorem normal_of_le (h : 2 ^ (-200 : Int) ≤ q) : 2 ^ (-1021 : Int) ≤ q := by
  refine le_trans ?_ h
  gcongr <;> norm_num

/-- The product of two mantissas has the bits of one, unless both numbers are below the range. -/
theorem le_totalExponent_mul {m₁ m₂ : Nat} {e₁ e₂ : Int} (h₁ : Representable m₁ e₁)
    (h₂ : Representable m₂ e₂) (hnormal : -1021 ≤ totalExponent (m₁ * m₂) (e₁ + e₂)) :
    e₁ + e₂ ≤ totalExponent (m₁ * m₂) (e₁ + e₂) - 53 := by
  have hpos := Nat.mul_pos h₁.pos h₂.pos
  have hlog : 52 ≤ (m₁ * m₂).log2 := by
    obtain hlarge | he₁ := h₁.normal
    · exact (Nat.le_log2 hpos.ne').mpr (hlarge.trans (Nat.le_mul_of_pos_right m₁ h₂.pos))
    obtain hlarge | he₂ := h₂.normal
    · exact (Nat.le_log2 hpos.ne').mpr (hlarge.trans (Nat.le_mul_of_pos_left m₂ h₁.pos))
    rw [totalExponent] at hnormal
    omega
  rw [totalExponent]
  omega

theorem Denotes.mul (hx : Denotes x p) (hy : Denotes y q) (hnormal : 2 ^ (-1021 : Int) ≤ p * q)
    (hmax : p * q ≤ maxFloat) : ∃ r, Denotes (x * y) r ∧ Near (2 ^ (-53 : Int)) r (p * q) := by
  have hproduct : 0 < p * q := lt_of_lt_of_le (by positivity) hnormal
  obtain ⟨m₁, e₁, hx₁, rfl⟩ := hx.represents (pos_of_mul_pos_left hproduct hy.nonneg)
  obtain ⟨m₂, e₂, hy₁, rfl⟩ := hy.represents (pos_of_mul_pos_right hproduct hx.nonneg)
  have h₁ := hx₁.representable
  have h₂ := hy₁.representable
  have hpos := Nat.mul_pos h₁.pos h₂.pos
  rw [← binaryValue_mul] at hnormal hmax ⊢
  have htotal := mt (binaryValue_lt_iff hpos (-1021)).mpr hnormal.not_gt
  have hrounded := roundWithAccuracy_near hpos (tells_exact (m₁ * m₂)) (by omega)
    (le_totalExponent_mul h₁ h₂ (by omega))
  change ∃ r, Denotes (.ofModel (.pack (UnpackedFloat.mul .binary64 x.toModel.unpack _))) r ∧ _
  rw [hx₁.unpack, hy₁.unpack]
  exact hrounded.denotes hmax

theorem tells_div (a : Nat) {b : Nat} (hb : 0 < b) :
    Tells (.ofMantissaAndAccuracy (a / b) (accuracyOfFraction (a % b) b)) (a / b) := by
  have hb₀ : (0 : ℚ) < b := by exact_mod_cast hb
  have ha : (a : ℚ) / b = (a / b : Nat) + (a % b : Nat) / b := by
    rw [div_eq_iff hb₀.ne', add_mul, div_mul_cancel₀ _ hb₀.ne', mul_comm]
    exact_mod_cast (Nat.div_add_mod a b).symm
  have hlt : ((a % b : Nat) : ℚ) < b := by exact_mod_cast Nat.mod_lt a hb
  rw [ha, accuracyOfFraction]
  generalize a / b = n
  generalize a % b = r at hlt ⊢
  split
  · rename_i hr
    simp [Tells, ExtendedMantissa.ofMantissaAndAccuracy, hr]
  · rename_i hr
    have hpos : (0 : ℚ) < r / b := div_pos (by exact_mod_cast Nat.pos_of_ne_zero hr) hb₀
    obtain hlt' | heq | hgt := lt_trichotomy (2 * r) b
    · have hhalf : (r : ℚ) / b < 1 / 2 := by
        rw [div_lt_iff₀ hb₀]
        have : (2 : ℚ) * r < b := by exact_mod_cast hlt'
        linarith
      rw [Nat.compare_eq_lt.mpr hlt']
      exact ⟨by linarith, by linarith⟩
    · have hhalf : (r : ℚ) / b = 1 / 2 := by
        rw [div_eq_iff hb₀.ne']
        have : (2 : ℚ) * r = b := by exact_mod_cast heq
        linarith
      rw [Nat.compare_eq_eq.mpr heq, hhalf]
      rfl
    · have hhalf : 1 / 2 < (r : ℚ) / b := by
        rw [lt_div_iff₀ hb₀]
        have : (b : ℚ) < 2 * r := by exact_mod_cast hgt
        linarith
      have hone : (r : ℚ) / b < 1 := (div_lt_one hb₀).mpr hlt
      rw [Nat.compare_eq_gt.mpr hgt]
      exact ⟨by linarith, by linarith⟩

theorem binaryValue_bounds {m : Nat} (hm : 0 < m) (e : Int) :
    2 ^ (totalExponent m e - 1) ≤ binaryValue m e ∧ binaryValue m e < 2 ^ totalExponent m e :=
  ⟨not_lt.mp (mt (binaryValue_lt_iff hm _).mp (by omega)), (binaryValue_lt_iff hm _).mpr le_rfl⟩

theorem quotient_bounds {m₁ m₂ : Nat} (hm₁ : 0 < m₁) (hm₂ : 0 < m₂) (e₁ e₂ : Int) :
    2 ^ (totalExponent m₁ e₁ - 1 - totalExponent m₂ e₂) ≤ binaryValue m₁ e₁ / binaryValue m₂ e₂ ∧
      binaryValue m₁ e₁ / binaryValue m₂ e₂ <
        2 ^ (totalExponent m₁ e₁ - (totalExponent m₂ e₂ - 1)) := by
  obtain ⟨hlow₁, hhigh₁⟩ := binaryValue_bounds hm₁ e₁
  obtain ⟨hlow₂, hhigh₂⟩ := binaryValue_bounds hm₂ e₂
  have hpos₁ := binaryValue_pos (e := e₁) hm₁
  have hpos₂ := binaryValue_pos (e := e₂) hm₂
  rw [zpow_sub₀ (by norm_num) _ (totalExponent m₂ e₂), zpow_sub₀ (by norm_num) _ (_ - 1)]
  exact ⟨div_le_div₀ hpos₁.le hlow₁ hpos₂ hhigh₂.le,
    div_lt_div₀ hhigh₁ hlow₂ (by positivity) (by positivity)⟩

theorem div_near {m₁ m₂ : Nat} {e₁ e₂ : Int} (h₁ : Representable m₁ e₁) (h₂ : Representable m₂ e₂)
    (hnormal : 2 ^ (-1021 : Int) ≤ binaryValue m₁ e₁ / binaryValue m₂ e₂) :
    RoundedTo
      (UnpackedFloat.div .binary64 (.finite .positive m₁ e₁ h₁.pos) (.finite .positive m₂ e₂ h₂.pos))
      (binaryValue m₁ e₁ / binaryValue m₂ e₂) := by
  obtain ⟨hlow, hhigh⟩ := quotient_bounds h₁.pos h₂.pos e₁ e₂
  generalize hT₁ : totalExponent m₁ e₁ = T₁ at hlow hhigh
  generalize hT₂ : totalExponent m₂ e₂ = T₂ at hlow hhigh
  have htotal : -1021 ≤ T₁ - T₂ := by
    have := (zpow_lt_zpow_iff_right₀ (by norm_num)).mp (hnormal.trans_lt hhigh)
    omega
  -- The dividend is shifted until the quotient has 53 bits or 54.
  have hlog : m₁.log2 < 53 := (Nat.log2_lt h₁.pos.ne').mpr h₁.mantissa
  have htarget : min (e₁ - e₂) (Format.binary64.targetExponent (T₁ - T₂)) = T₁ - T₂ - 53 := by
    rw [targetExponent_eq]
    rw [totalExponent] at hT₁ hT₂
    omega
  obtain ⟨k, hk⟩ := Int.eq_ofNat_of_zero_le (show 0 ≤ e₁ - e₂ - (T₁ - T₂ - 53) by
    rw [totalExponent] at hT₁ hT₂
    omega)
  have hvalue : binaryValue m₁ e₁ / binaryValue m₂ e₂ =
      ((m₁ * 2 ^ k : Nat) : ℚ) / m₂ * 2 ^ (T₁ - T₂ - 53) := by
    have hshift := binaryValue_shift m₁ e₁ k
    rw [show e₁ - k = T₁ - T₂ - 53 + e₂ by omega] at hshift
    rw [← hshift, binaryValue, binaryValue, zpow_add₀ (by norm_num)]
    have : (2 : ℚ) ^ e₂ ≠ 0 := by positivity
    field_simp
  have hquotient : 2 ^ 52 ≤ m₁ * 2 ^ k / m₂ := by
    rw [hvalue, show T₁ - 1 - T₂ = 52 + (T₁ - T₂ - 53) by omega, zpow_add₀ (by norm_num),
      mul_le_mul_iff_left₀ (by positivity), le_div_iff₀ (by exact_mod_cast h₂.pos)] at hlow
    exact (Nat.le_div_iff_mul_le h₂.pos).mpr (by exact_mod_cast hlow)
  have hpos : 0 < m₁ * 2 ^ k / m₂ := by omega
  have hlog' : 52 ≤ (m₁ * 2 ^ k / m₂).log2 := (Nat.le_log2 hpos.ne').mpr hquotient
  have hrounded := roundWithAccuracy_near (e := T₁ - T₂ - 53) hpos (tells_div (m₁ * 2 ^ k) h₂.pos)
    (by rw [totalExponent]; omega) (by rw [totalExponent]; omega)
  dsimp only [UnpackedFloat.div, divCore]
  rw [hT₁, hT₂, htarget, hk, Nat.shiftLeft_eq, Int.toNat_natCast, hvalue]
  exact hrounded

theorem Denotes.div (hx : Denotes x p) (hy : Denotes y q) (hq : 0 < q)
    (hnormal : 2 ^ (-1021 : Int) ≤ p / q) (hmax : p / q ≤ maxFloat) :
    ∃ r, Denotes (x / y) r ∧ Near (2 ^ (-53 : Int)) r (p / q) := by
  have hp : 0 < p := by
    have hquotient : 0 < p / q := lt_of_lt_of_le (by positivity) hnormal
    exact pos_of_mul_pos_left (div_eq_mul_inv p q ▸ hquotient) (inv_nonneg.mpr hq.le)
  obtain ⟨m₁, e₁, hx₁, rfl⟩ := hx.represents hp
  obtain ⟨m₂, e₂, hy₁, rfl⟩ := hy.represents hq
  change ∃ r, Denotes (.ofModel (.pack (UnpackedFloat.div .binary64 x.toModel.unpack _))) r ∧ _
  rw [hx₁.unpack, hy₁.unpack]
  exact (div_near hx₁.representable hy₁.representable hnormal).denotes hmax

theorem Denotes.zero_div (hx : Denotes x 0) (hy : Denotes y q) (hq : 0 < q) :
    Denotes (x / y) 0 := by
  obtain ⟨m, e, hy₁, -⟩ := hy.represents hq
  have hx : ∃ s, x.toModel.unpack = .zero s := by
    generalize hzero : (0 : ℚ) = z at hx
    obtain @⟨s, hx⟩ | @⟨m, e, hx⟩ := hx
    · exact ⟨s, hx⟩
    · exact absurd hzero (binaryValue_pos hx.representable.pos).ne
  obtain ⟨s, hx⟩ := hx
  change Denotes (.ofModel (.pack (UnpackedFloat.div .binary64 x.toModel.unpack _))) 0
  rw [hx, hy₁.unpack]
  exact .zero (unpack_pack_zero _)

theorem denotes_ofNat_of_lt {n : Nat} (hn : n < 2 ^ 53) : Denotes (Float.ofNat n) n := by
  obtain rfl | hpos := n.eq_zero_or_pos
  · exact_mod_cast Denotes.zero (x := Float.ofNat 0) rfl
  · obtain ⟨m, e, h, hvalue, -⟩ := represents_toFloat hpos hn
    rw [← hvalue]
    exact .positive (represents_natural h.representable hvalue.symm)

theorem denotes_ofNat (n : Nat) (hmax : n ≤ maxFloat) :
    ∃ r, Denotes (Float.ofNat n) r ∧ Near (2 ^ (-53 : Int)) r n := by
  obtain hn | hn := Nat.lt_or_ge n (2 ^ 53)
  · exact ⟨n, denotes_ofNat_of_lt hn, .refl (by positivity) n.cast_nonneg⟩
  have hpos : 0 < n := by omega
  have hshift : 0 < n <<< 53 * 10 ^ 0 := by
    rw [Nat.shiftLeft_eq]
    omega
  have hvalue : ((n <<< 53 * 10 ^ 0 : Nat) : ℚ) * 2 ^ (-53 + 0 : Int) = n := by
    rw [Nat.shiftLeft_eq]
    push_cast
    norm_num
    ring
  have hlog : 53 ≤ (n <<< 53 * 10 ^ 0).log2 := by
    rw [Nat.le_log2 hshift.ne', Nat.shiftLeft_eq]
    omega
  have hsafe : ¬ (0 : Int) < -((2 ^ Format.binary64.exponentBits : Int) + n.log2) := by
    change ¬ (0 : Int) < -(2048 + n.log2)
    omega
  have hrounded := roundWithAccuracy_near (e := -53 + 0) hshift (tells_exact _)
    (by rw [totalExponent]; omega) (by rw [totalExponent]; omega)
  rw [hvalue] at hrounded
  rw [Float.ofNat]
  change ∃ r, Denotes (Float.ofScientific n false 0) r ∧ _
  rw [Float.ofScientific, dif_neg (by omega)]
  change ∃ r, Denotes (.ofModel (.pack (UnpackedFloat.ofScientific .binary64 n 0))) r ∧ _
  rw [UnpackedFloat.ofScientific, dif_neg hpos.ne', if_neg (by decide), if_neg hsafe, if_pos le_rfl]
  exact hrounded.denotes hmax

theorem Denotes.ofFloat? (h : Denotes x q) :
    ∃ b, Binary.ofFloat? x = some b ∧ (b.negative = false ∨ b.significand = 0) ∧
      binaryValue b.significand b.exponent = q := by
  obtain @⟨s, h⟩ | @⟨m, e, h⟩ := h
  · refine ⟨⟨s == .negative, 0, -1074⟩, ?_, .inr rfl, by simp [binaryValue]⟩
    rw [Binary.ofFloat?_eq, h]
    rfl
  · exact ⟨_, h.ofFloat?, .inl rfl, rfl⟩

theorem denotes_of_ofFloat? {b : Binary} (h : Binary.ofFloat? x = some b)
    (hsign : b.negative = false ∨ b.significand = 0) :
    Denotes x (binaryValue b.significand b.exponent) := by
  by_cases hb : b.significand = 0
  · rw [Binary.ofFloat?_eq] at h
    rw [hb, binaryValue, Nat.cast_zero, zero_mul]
    cases hu : x.toModel.unpack with
    | infinity | notANumber =>
      rw [hu] at h
      cases h
    | zero s => exact .zero hu
    | finite s m e hm =>
      rw [hu] at h
      cases h
      exact absurd hb hm.ne'
  · exact .positive (represents_of_ofFloat? h (hsign.resolve_right hb) hb)

theorem abs_half_up_sub_le (a : Nat) {b : Nat} (hb : 0 < b) :
    |(((2 * a + b) / (2 * b) : Nat) : ℚ) - a / b| ≤ 1 / 2 := by
  have hb₀ : (0 : ℚ) < b := by exact_mod_cast hb
  have hle := Nat.div_mul_le_self (2 * a + b) (2 * b)
  have hlt := Nat.lt_div_mul_add (a := 2 * a + b) (show 0 < 2 * b by omega)
  generalize (2 * a + b) / (2 * b) = n at hle hlt ⊢
  have hle : (n : ℚ) * (2 * b) ≤ 2 * a + b := by exact_mod_cast hle
  have hlt : (2 : ℚ) * a + b < n * (2 * b) + 2 * b := by exact_mod_cast hlt
  rw [sub_div' hb₀.ne', abs_div, abs_of_pos hb₀, div_le_iff₀ hb₀, abs_le]
  constructor <;> linarith

theorem Binary.denominator_pos (b : Binary) : 0 < b.denominator :=
  Nat.pow_pos two_pos

theorem Binary.value_eq_div (b : Binary) :
    binaryValue b.significand b.exponent = b.numerator / b.denominator := by
  have hpos : (0 : ℚ) < b.denominator := by exact_mod_cast b.denominator_pos
  rw [← b.value_mul_denominator, mul_div_cancel_right₀ _ hpos.ne']

theorem Denotes.roundHalfAway (hx : Denotes x q) :
    ∃ n : Nat, Denotes (roundHalfAway x) n ∧ |n - q| ≤ 1 / 2 := by
  obtain ⟨b, hb, hsign, hvalue⟩ := hx.ofFloat?
  have hq : q = b.numerator / b.denominator := hvalue.symm.trans b.value_eq_div
  have hdenominator := b.denominator_pos
  rw [Number.roundHalfAway]
  simp only [hb]
  split
  · rename_i hexponent
    have hone : b.denominator = 1 := by
      rw [Binary.denominator, Int.toNat_of_nonpos (by omega)]
    rw [hone, Nat.cast_one, div_one] at hq
    rw [hq] at hx ⊢
    exact ⟨b.numerator, hx, by simp⟩
  · rename_i hexponent
    have hnumerator : b.numerator = b.significand := by
      rw [Binary.numerator, Binary.unit, Int.toNat_of_nonpos (by omega)]
      exact Nat.mul_one _
    have hsmall : b.significand < 2 ^ 53 := by
      by_cases hzero : b.significand = 0
      · rw [hzero]
        exact Nat.two_pow_pos 53
      · exact (representable_of_ofFloat? hb hzero).mantissa
    refine ⟨_, ?_, hq ▸ abs_half_up_sub_le b.numerator hdenominator⟩
    rw [hnumerator]
    cases hnegative : b.negative with
    | true =>
      have hzero : b.significand = 0 := hsign.resolve_left (by rw [hnegative]; decide)
      have hwhole : (2 * 0 + b.denominator) / (2 * b.denominator) = 0 :=
        Nat.div_eq_of_lt (by omega)
      rw [hzero, hwhole]
      exact_mod_cast Denotes.zero (x := -Float.ofNat 0) rfl
    | false =>
      exact denotes_ofNat_of_lt (Nat.div_lt_of_lt_mul (by omega))

theorem not_isFinite_pack {u : UnpackedFloat} (h : u.isFinite = false) :
    (Float.Model.pack u).unpack.isFinite = false := by
  cases u with
  | zero | finite => cases h
  | notANumber => rfl
  | infinity s => cases s <;> rfl

theorem not_isFinite_add {u : UnpackedFloat} (h : u.isFinite = false) (v : UnpackedFloat) :
    (UnpackedFloat.add .binary64 u v).isFinite = false := by
  cases u with
  | zero | finite => cases h
  | notANumber => rfl
  | infinity s =>
    cases v with
    | notANumber | zero | finite => rfl
    | infinity s' => cases s <;> cases s' <;> rfl

theorem isFinite_of_add (h : (x + y).isFinite = true) : x.isFinite = true := by
  by_contra hx
  rw [Bool.not_eq_true] at hx
  exact Bool.false_ne_true ((not_isFinite_pack (not_isFinite_add hx _)).symm.trans h)

theorem isFinite_of_foldl {xs : List Float} (h : (xs.foldl (· + ·) x).isFinite = true) :
    x.isFinite = true := by
  induction xs generalizing x with
  | nil => exact h
  | cons y xs ih => exact isFinite_of_add (ih h)

/-- Each sum of a chain that stays finite is off by a part of `2 ^ 53`. -/
theorem foldl_near {xs : List Float} {qs : List ℚ} (hxs : List.Forall₂ Denotes xs qs) {exact : ℚ}
    {n : Nat} (hx : Denotes x p) (hnear : Near ((1 + 2 ^ (-53 : Int)) ^ n - 1) p exact)
    (hfinite : (xs.foldl (· + ·) x).isFinite = true) :
    ∃ r, Denotes (xs.foldl (· + ·) x) r ∧
      Near ((1 + 2 ^ (-53 : Int)) ^ (n + xs.length) - 1) r (exact + qs.sum) := by
  induction hxs generalizing x p exact n with
  | nil => exact ⟨p, hx, by simpa using hnear⟩
  | @cons y q xs qs hy _ ih =>
    obtain ⟨r, hr, hstep⟩ := hx.add_of_isFinite hy (isFinite_of_foldl hfinite)
    have hnext := hnear.step hstep (by positivity) hy.nonneg
    rw [List.foldl_cons, List.sum_cons, List.length_cons, ← add_assoc, ← add_assoc,
      Nat.add_right_comm]
    exact ih hr hnext hfinite

end TableConsole.Number
