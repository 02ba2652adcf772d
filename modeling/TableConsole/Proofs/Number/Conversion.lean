import Mathlib.Data.Nat.Cast.Field
import TableConsole.Number.Decimal
import TableConsole.Proofs.Number.Operations

/-! # Decimals from floats

Binary places become decimal ones with next to no loss, then digits are dropped: those behind the
last place of a decimal, and those that a float cannot tell apart. So a decimal is off by less than
two units of the last place there is and by a part of `2 ^ 43`.
-/

namespace TableConsole.Number

set_option autoImplicit false

/-- The decimal is the number, which is not negative; a zero may have a sign. -/
structure Decimal.Is (d : Decimal) (q : ℚ) : Prop where
  plain : d.negative = true → d.coefficient = 0
  coefficient_le : d.coefficient ≤ maxCoefficient
  scale_le : d.scale ≤ maxScale
  value : (d.coefficient : ℚ) / 10 ^ d.scale = q

namespace Decimal

theorem maxCoefficient_eq : maxCoefficient = 2 ^ 96 - 1 := rfl

def valueOf (d : Nat × Nat) : ℚ :=
  d.1 / 10 ^ d.2

theorem valueOf_nonneg (d : Nat × Nat) : 0 ≤ valueOf d :=
  div_nonneg d.1.cast_nonneg (by positivity)

theorem valueOf_succ (m places : Nat) : valueOf (m, places + 1) = valueOf (m, places) / 10 := by
  rw [valueOf, valueOf, pow_succ, div_div]

theorem valueOf_eq_mul (m places : Nat) : valueOf (m, places) = m * valueOf (1, places) := by
  rw [valueOf, valueOf, Nat.cast_one, mul_one_div]

theorem valueOf_anti (m : Nat) {places places' : Nat} (h : places ≤ places') :
    valueOf (m, places') ≤ valueOf (m, places) :=
  div_le_div_of_nonneg_left m.cast_nonneg (by positivity) (pow_le_pow_right₀ (by norm_num) h)

theorem near_half {m : Nat} (h : maxCoefficient < 5 * m) :
    Near (2 ^ (-93 : Int)) ((m / 2 : Nat) : ℚ) (m / 2) := by
  have hm : (2 : ℚ) ^ 93 ≤ m := by
    rw [maxCoefficient_eq] at h
    exact_mod_cast (by omega : 2 ^ 93 ≤ m)
  have hdiv : (m : ℚ) = 2 * (m / 2 : Nat) + (m % 2 : Nat) := by
    exact_mod_cast (Nat.div_add_mod m 2).symm
  have hbit : ((m % 2 : Nat) : ℚ) ≤ 1 := by exact_mod_cast Nat.le_of_lt_succ (Nat.mod_lt m two_pos)
  have hnonneg : (0 : ℚ) ≤ (m % 2 : Nat) := Nat.cast_nonneg _
  have hloss : 1 / 2 ≤ 2 ^ (-93 : Int) * ((m : ℚ) / 2) := by
    rw [zpow_neg, zpow_ofNat, inv_mul_eq_div, le_div_iff₀ (by positivity)]
    linarith
  rw [Near, abs_le]
  constructor <;> linarith

theorem tradeHalves_near (steps extra : Nat) {m : Nat} (hm : m ≤ maxCoefficient) :
    (tradeHalves steps m (steps + extra)).1 ≤ maxCoefficient ∧
      Near ((1 + 2 ^ (-93 : Int)) ^ steps - 1) (valueOf (tradeHalves steps m (steps + extra)))
        (m / (2 ^ steps * 10 ^ extra)) := by
  induction steps generalizing m extra with
  | zero =>
    refine ⟨hm, ?_⟩
    rw [pow_zero, pow_zero, one_mul, Nat.zero_add]
    exact .refl (sub_self 1).ge (valueOf_nonneg (m, extra))
  | succ steps ih =>
    have hunit : (0 : ℚ) < 2 ^ steps * 10 ^ extra := by positivity
    have hscale : (m : ℚ) / (2 ^ (steps + 1) * 10 ^ extra) = m / 2 / (2 ^ steps * 10 ^ extra) := by
      rw [pow_succ]
      field_simp
    have hplaces : steps + 1 + extra - 1 = steps + extra := by omega
    rw [tradeHalves, hplaces, hscale]
    split
    · rename_i heven
      obtain ⟨hle, hnear⟩ := ih extra (m := m / 2) (by omega)
      rw [Nat.cast_div (Nat.dvd_of_mod_eq_zero heven) two_ne_zero, Nat.cast_ofNat] at hnear
      exact ⟨hle, (Near.refl (by positivity) (by positivity)).before hnear (by positivity)⟩
    · split
      · rename_i hfits
        obtain ⟨hle, hnear⟩ := ih (extra + 1) hfits
        have hfive : ((5 * m : Nat) : ℚ) / (2 ^ steps * 10 ^ (extra + 1)) =
            m / 2 / (2 ^ steps * 10 ^ extra) := by
          rw [pow_succ]
          push_cast
          field_simp
          ring
        rw [hfive] at hnear
        rw [show steps + 1 + extra = steps + (extra + 1) by omega]
        exact ⟨hle, (Near.refl (by positivity) (by positivity)).before hnear (by positivity)⟩
      · rename_i hfull
        obtain ⟨hle, hnear⟩ := ih extra (m := m / 2) (by omega)
        exact ⟨hle, ((near_half (not_le.mp hfull)).div_right hunit).before hnear (by positivity)⟩

theorem dropDigit_le {m : Nat} (hm : m ≤ maxCoefficient) : dropDigit m ≤ maxCoefficient := by
  rw [maxCoefficient_eq] at hm ⊢
  rw [dropDigit]
  split <;> omega

theorem abs_dropDigit_sub_le (m : Nat) : |(dropDigit m : ℚ) - m / 10| ≤ 1 / 2 := by
  have hm : (m : ℚ) = 10 * (m / 10 : Nat) + (m % 10 : Nat) := by
    exact_mod_cast (Nat.div_add_mod m 10).symm
  have hlt : m % 10 < 10 := Nat.mod_lt m (by decide)
  rw [dropDigit, abs_le]
  split
  · rename_i hfive
    have hfive : (5 : ℚ) ≤ (m % 10 : Nat) := by exact_mod_cast hfive
    have hlt : ((m % 10 : Nat) : ℚ) < 10 := by exact_mod_cast hlt
    push_cast
    constructor <;> linarith
  · rename_i hfive
    have hfive : ((m % 10 : Nat) : ℚ) < 5 := by exact_mod_cast Nat.not_le.mp hfive
    have hnonneg : (0 : ℚ) ≤ (m % 10 : Nat) := Nat.cast_nonneg _
    constructor <;> linarith

theorem abs_valueOf_dropDigit_sub_le (m places : Nat) :
    |valueOf (dropDigit m, places) - valueOf (m, places + 1)| ≤ valueOf (1, places) / 2 := by
  have hunit := valueOf_nonneg (1, places)
  rw [valueOf_succ, valueOf_eq_mul (dropDigit m), valueOf_eq_mul m, mul_div_right_comm, ← sub_mul,
    abs_mul, abs_of_nonneg hunit]
  linarith [mul_le_mul_of_nonneg_right (abs_dropDigit_sub_le m) hunit]

theorem limitPlaces_of_le {places : Nat} (h : places ≤ maxScale) (m : Nat) :
    limitPlaces places m = (m, places) := by
  cases places with
  | zero => rfl
  | succ places => rw [limitPlaces, if_pos h]

/-- Each digit that goes away adds at most a tenth of what the next one adds. -/
theorem limitPlaces_near (k : Nat) {m : Nat} (hm : m ≤ maxCoefficient) :
    (limitPlaces (maxScale + k) m).1 ≤ maxCoefficient ∧
      (limitPlaces (maxScale + k) m).2 ≤ maxScale ∧
      |valueOf (limitPlaces (maxScale + k) m) - valueOf (m, maxScale + k)| ≤
        valueOf (1, maxScale) - valueOf (1, maxScale + k) := by
  induction k generalizing m with
  | zero =>
    rw [Nat.add_zero, limitPlaces_of_le le_rfl]
    exact ⟨hm, le_rfl, by simp⟩
  | succ k ih =>
    rw [← Nat.add_assoc, limitPlaces, if_neg (by omega), valueOf_succ 1]
    split
    · rename_i hdigit
      refine ⟨Nat.zero_le _, Nat.zero_le _, ?_⟩
      have hm : (m : ℚ) ≤ 9 := by exact_mod_cast (by omega : m ≤ 9)
      have hunit := valueOf_nonneg (1, maxScale + k)
      have hle := valueOf_anti 1 (Nat.le_add_right maxScale k)
      have hzero : valueOf (0, 0) = 0 := by simp [valueOf]
      rw [hzero, zero_sub, abs_neg, abs_of_nonneg (valueOf_nonneg _), valueOf_succ,
        valueOf_eq_mul m]
      linarith [mul_le_mul_of_nonneg_right hm hunit]
    · obtain ⟨hle, hplaces, hnear⟩ := ih (dropDigit_le hm)
      refine ⟨hle, hplaces, (abs_sub_le _ (valueOf (dropDigit m, maxScale + k)) _).trans ?_⟩
      have hdigit := abs_valueOf_dropDigit_sub_le m (maxScale + k)
      have hunit := valueOf_nonneg (1, maxScale + k)
      linarith

theorem limitPlaces_close (places : Nat) {m : Nat} (hm : m ≤ maxCoefficient) :
    (limitPlaces places m).1 ≤ maxCoefficient ∧ (limitPlaces places m).2 ≤ maxScale ∧
      |valueOf (limitPlaces places m) - valueOf (m, places)| ≤ valueOf (1, maxScale) := by
  obtain hplaces | hplaces := Nat.le_total places maxScale
  · rw [limitPlaces_of_le hplaces, sub_self, abs_zero]
    exact ⟨hm, hplaces, valueOf_nonneg _⟩
  · obtain ⟨k, rfl⟩ := Nat.exists_eq_add_of_le hplaces
    obtain ⟨hle, hplaces, hnear⟩ := limitPlaces_near k hm
    exact ⟨hle, hplaces, hnear.trans (sub_le_self _ (valueOf_nonneg _))⟩

theorem limitDigits_near (places : Nat) {m : Nat} (hm : m ≤ maxCoefficient) :
    (limitDigits places m).1 ≤ maxCoefficient ∧ (limitDigits places m).2 ≤ places ∧
      Near ((1 + 2 ^ (-49 : Int)) ^ places - 1) (valueOf (limitDigits places m))
        (valueOf (m, places)) := by
  induction places generalizing m with
  | zero => exact ⟨hm, le_rfl, .refl (by norm_num) (valueOf_nonneg _)⟩
  | succ places ih =>
    rw [limitDigits]
    split
    · exact ⟨hm, le_rfl, .refl (sub_nonneg.mpr (one_le_pow₀ (by norm_num))) (valueOf_nonneg _)⟩
    · rename_i hlarge
      obtain ⟨hle, hplaces, hnear⟩ := ih (dropDigit_le hm)
      refine ⟨hle, hplaces.trans (Nat.le_succ places), Near.before ?_ hnear (by positivity)⟩
      have hm : (2 : ℚ) ^ 52 ≤ m := by exact_mod_cast not_lt.mp hlarge
      have hunit := valueOf_nonneg (1, places)
      have hhalf : 1 / 2 ≤ 2 ^ (-49 : Int) * ((m : ℚ) / 10) := by
        rw [zpow_neg, zpow_ofNat, inv_mul_eq_div, le_div_iff₀ (by positivity)]
        linarith
      rw [Near]
      refine (abs_valueOf_dropDigit_sub_le m places).trans ?_
      rw [valueOf_succ, valueOf_eq_mul m, mul_div_right_comm, ← mul_assoc]
      linarith [mul_le_mul_of_nonneg_right hhalf hunit]

theorem dropZeros_eq (places m : Nat) :
    (dropZeros places m).1 ≤ m ∧ (dropZeros places m).2 ≤ places ∧
      valueOf (dropZeros places m) = valueOf (m, places) := by
  induction places generalizing m with
  | zero => exact ⟨le_rfl, le_rfl, rfl⟩
  | succ places ih =>
    rw [dropZeros]
    split
    · rename_i hzero
      obtain ⟨hle, hplaces, hvalue⟩ := ih (m / 10)
      refine ⟨hle.trans (Nat.div_le_self m 10), hplaces.trans (Nat.le_succ places), hvalue.trans ?_⟩
      rw [valueOf, valueOf, Nat.cast_div (Nat.dvd_of_mod_eq_zero hzero) (by norm_num), pow_succ]
      push_cast
      field_simp
    · exact ⟨le_rfl, le_rfl, rfl⟩

/-- The coefficient and the places of a fraction `m / 2 ^ k`. -/
def ofFraction (m k : Nat) : Nat × Nat :=
  let (m, places) := tradeHalves k m k
  let (m, places) := limitPlaces places m
  let (m, places) := limitDigits places m
  dropZeros places m

theorem abs_sub_le_of_steps {q v₁ v₂ v₃ τ : ℚ} (h₁ : Near (2 ^ (-82 : Int)) v₁ q)
    (h₂ : |v₂ - v₁| ≤ τ) (h₃ : Near (2 ^ (-44 : Int)) v₃ v₂) (hq : 0 ≤ q) :
    |v₃ - q| ≤ 2 ^ (-43 : Int) * q + 2 * τ := by
  have hτ : 0 ≤ τ := (abs_nonneg _).trans h₂
  have hv₂ : v₂ ≤ (1 + 2 ^ (-82 : Int)) * q + τ := by
    have := (abs_le.mp h₂).2
    have := h₁.le
    linarith
  calc |v₃ - q| ≤ |v₃ - v₂| + (|v₂ - v₁| + |v₁ - q|) :=
        (abs_sub_le _ v₂ _).trans (add_le_add_right (abs_sub_le _ _ _) _)
    _ ≤ 2 ^ (-44 : Int) * ((1 + 2 ^ (-82 : Int)) * q + τ) + (τ + 2 ^ (-82 : Int) * q) :=
        add_le_add (le_trans h₃ (mul_le_mul_of_nonneg_left hv₂ (by positivity))) (add_le_add h₂ h₁)
    _ ≤ 2 ^ (-43 : Int) * q + 2 * τ := by
      norm_num
      linarith

/-- The subnormal floats have 1074 binary places. -/
theorem trade_loss_le {k : Nat} (hk : k ≤ 1074) :
    (1 + 2 ^ (-93 : Int) : ℚ) ^ k - 1 ≤ 2 ^ (-82 : Int) := by
  have hsum : (k : ℚ) * 2 ^ (-93 : Int) ≤ 1074 * 2 ^ (-93 : Int) := by
    gcongr
    exact_mod_cast hk
  exact (pow_sub_one_le (by positivity) hsum (by norm_num)).trans (by norm_num)

theorem drop_loss_le {places : Nat} (hplaces : places ≤ maxScale) :
    (1 + 2 ^ (-49 : Int) : ℚ) ^ places - 1 ≤ 2 ^ (-44 : Int) := by
  have hsum : (places : ℚ) * 2 ^ (-49 : Int) ≤ 28 * 2 ^ (-49 : Int) := by
    gcongr
    exact_mod_cast hplaces
  exact (pow_sub_one_le (by positivity) hsum (by norm_num)).trans (by norm_num)

theorem ofFraction_close {m k : Nat} (hm : m ≤ maxCoefficient) (hk : k ≤ 1074) :
    (ofFraction m k).1 ≤ maxCoefficient ∧ (ofFraction m k).2 ≤ maxScale ∧
      |valueOf (ofFraction m k) - m / 2 ^ k| ≤
        2 ^ (-43 : Int) * (m / 2 ^ k) + 2 * valueOf (1, maxScale) := by
  have htrade := tradeHalves_near k 0 hm
  rw [Nat.add_zero, pow_zero, mul_one] at htrade
  rw [ofFraction]
  generalize tradeHalves k m k = d₁ at htrade ⊢
  obtain ⟨m₁, places₁⟩ := d₁
  have hlimit := limitPlaces_close places₁ htrade.1
  dsimp only
  generalize limitPlaces places₁ m₁ = d₂ at hlimit ⊢
  obtain ⟨m₂, places₂⟩ := d₂
  have hdigits := limitDigits_near places₂ hlimit.1
  dsimp only
  generalize limitDigits places₂ m₂ = d₃ at hdigits ⊢
  obtain ⟨m₃, places₃⟩ := d₃
  obtain ⟨hle, hplaces, hvalue⟩ := dropZeros_eq places₃ m₃
  refine ⟨hle.trans hdigits.1, hplaces.trans (hdigits.2.1.trans hlimit.2.1), ?_⟩
  have hq : (0 : ℚ) ≤ m / 2 ^ k := by positivity
  rw [hvalue]
  exact abs_sub_le_of_steps (htrade.2.mono (trade_loss_le hk) hq) hlimit.2.2
    (hdigits.2.2.mono (drop_loss_le hlimit.2.1) (valueOf_nonneg _)) hq

theorem binaryValue_of_nonneg (m : Nat) {e : Int} (he : 0 ≤ e) :
    binaryValue m e = (m * Nat.pow 2 e.toNat : Nat) := by
  obtain ⟨k, rfl⟩ := Int.eq_ofNat_of_zero_le he
  rw [binaryValue, zpow_natCast, Int.toNat_natCast, Nat.pow_eq]
  push_cast
  rfl

theorem binaryValue_of_neg (m : Nat) {e : Int} (he : e < 0) :
    binaryValue m e = m / 2 ^ (-e).toNat := by
  obtain ⟨k, hk⟩ := Int.eq_ofNat_of_zero_le (show 0 ≤ -e by omega)
  rw [show e = -(k : Int) by omega, binaryValue, zpow_neg, zpow_natCast, Int.neg_neg,
    Int.toNat_natCast, div_eq_mul_inv]

variable {x : Float} {d : Decimal} {q : ℚ}

theorem ofFloat?_isSome (hx : Denotes x q) (hq : q ≤ maxCoefficient) :
    ∃ d, Decimal.ofFloat? x = some d := by
  obtain ⟨b, hb, -, rfl⟩ := hx.ofFloat?
  simp only [Decimal.ofFloat?, hb, Option.bind_eq_bind, Option.bind_some]
  split
  · exact ⟨_, rfl⟩
  split
  · rename_i hexponent
    rw [binaryValue_of_nonneg _ hexponent, Nat.cast_le] at hq
    rw [if_pos hq]
    exact ⟨_, rfl⟩
  · exact ⟨_, rfl⟩

theorem ofFloat?_close (hx : Denotes x q) (h : Decimal.ofFloat? x = some d) :
    ∃ r, d.Is r ∧ Close (2 ^ (-43 : Int)) (2 * valueOf (1, maxScale)) r q := by
  obtain ⟨b, hb, hsign, rfl⟩ := hx.ofFloat?
  have hunit := valueOf_nonneg (1, maxScale)
  have hexact {q : ℚ} (hq : 0 ≤ q) : Close (2 ^ (-43 : Int)) (2 * valueOf (1, maxScale)) q q :=
    ⟨by rw [sub_self, abs_zero]; positivity, id⟩
  simp only [Decimal.ofFloat?, hb, Option.bind_eq_bind, Option.bind_some] at h
  split at h
  · rename_i hzero
    cases h
    refine ⟨0, ⟨fun _ => rfl, Nat.zero_le _, Nat.zero_le _, by simp⟩, ?_⟩
    rw [hzero, binaryValue, Nat.cast_zero, zero_mul]
    exact hexact le_rfl
  rename_i hsignificand
  have hplain : b.negative = true → False := by simp [hsign.resolve_right hsignificand]
  have hrepresentable := representable_of_ofFloat? hb hsignificand
  have hpos := binaryValue_pos (e := b.exponent) hrepresentable.pos
  split at h
  · rename_i hexponent
    obtain ⟨hle, heq⟩ := Option.ite_none_right_eq_some.mp h
    cases heq
    refine ⟨_, ⟨fun hneg => (hplain hneg).elim, hle, Nat.zero_le _, ?_⟩, hexact hpos.le⟩
    rw [binaryValue_of_nonneg _ hexponent, pow_zero, div_one]
  · rename_i hexponent
    have hfraction := binaryValue_of_neg b.significand (not_le.mp hexponent)
    have hk : (-b.exponent).toNat ≤ 1074 := by
      have := hrepresentable.low
      omega
    have hm : b.significand ≤ maxCoefficient := by
      have := hrepresentable.mantissa
      rw [maxCoefficient_eq]
      omega
    obtain ⟨hle, hplaces, hnear⟩ := ofFraction_close hm hk
    change some (Decimal.mk b.negative (ofFraction b.significand (-b.exponent).toNat).1
      (ofFraction b.significand (-b.exponent).toNat).2) = some d at h
    cases h
    exact ⟨_, ⟨fun hneg => (hplain hneg).elim, hle, hplaces, rfl⟩,
      ⟨hfraction ▸ hnear, fun hzero => absurd hzero hpos.ne'⟩⟩

theorem ofFraction_mul_two_pow (n k : Nat) : ofFraction (n * 2 ^ k) k = (n, 0) := by
  have htrade : tradeHalves k (n * 2 ^ k) k = (n, 0) := by
    induction k with
    | zero => rw [pow_zero, mul_one, tradeHalves]
    | succ k ih =>
      rw [pow_succ, ← mul_assoc, tradeHalves, if_pos (Nat.mul_mod_left _ 2),
        Nat.mul_div_cancel _ two_pos]
      exact ih
  rw [ofFraction, htrade]
  rfl

theorem scale_ofFloat? (hx : Denotes x q) (h : Decimal.ofFloat? x = some d)
    (hq : 2 ^ 52 ≤ q ∨ ∃ n : Nat, q = n) : d.scale = 0 := by
  obtain ⟨b, hb, -, rfl⟩ := hx.ofFloat?
  simp only [Decimal.ofFloat?, hb, Option.bind_eq_bind, Option.bind_some] at h
  split at h
  · cases h
    rfl
  rename_i hsignificand
  split at h
  · obtain ⟨-, heq⟩ := Option.ite_none_right_eq_some.mp h
    cases heq
    rfl
  rename_i hexponent
  generalize hk : (-b.exponent).toNat = k at h
  have hpower : (0 : ℚ) < 2 ^ k := by positivity
  rw [binaryValue_of_neg b.significand (not_le.mp hexponent), hk, le_div_iff₀ hpower] at hq
  simp only [div_eq_iff hpower.ne'] at hq
  obtain hlarge | ⟨n, hn⟩ := hq
  · have hmantissa := (representable_of_ofFloat? hb hsignificand).mantissa
    have htwo : 2 ^ 1 ≤ 2 ^ k := Nat.pow_le_pow_right two_pos (by omega)
    have hlarge : 2 ^ 52 * 2 ^ k ≤ b.significand := by exact_mod_cast hlarge
    omega
  · have hsplit : b.significand = n * 2 ^ k := by exact_mod_cast hn
    change some (Decimal.mk b.negative (ofFraction b.significand k).1
      (ofFraction b.significand k).2) = some d at h
    rw [hsplit, ofFraction_mul_two_pow] at h
    cases h
    rfl

end Decimal

end TableConsole.Number
