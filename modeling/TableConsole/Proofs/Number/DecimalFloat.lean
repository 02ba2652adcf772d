import TableConsole.Proofs.Number.Conversion
import TableConsole.Proofs.Number.Equality

/-! # Floats from decimals

A decimal becomes a float in a few rounded operations: its whole part and its fraction are added, the
sum is rounded to the last place of the decimal, and that is a quotient by a power of ten. The whole
is off by at most a part of `2 ^ 38`.
-/

namespace TableConsole.Number.Decimal

set_option autoImplicit false

variable {x y : Float} {d : Decimal} {p q : ℚ}

/-- The float differs from the natural number by at most a part of `2 ^ 52`. -/
def isNearPower (n : Nat) (x : Float) : Bool :=
  match Binary.ofFloat? x with
  | some b => !b.negative &&
      decide (2 ^ 52 * (b.numerator - n * b.denominator : Int).natAbs ≤ n * b.denominator)
  | none => false

theorem isNearPower_tenPower :
    ∀ i : Fin (maxScale + 1), isNearPower (10 ^ i.val) (tenPower i.val) = true := by
  decide +kernel

theorem denotes_of_isNearPower {n : Nat} (h : isNearPower n x = true) :
    ∃ r, Denotes x r ∧ Near (2 ^ (-52 : Int)) r n := by
  unfold isNearPower at h
  split at h
  · rename_i b hb
    rw [Bool.and_eq_true, Bool.not_eq_true', decide_eq_true_eq] at h
    obtain ⟨hplain, hnear⟩ := h
    have hpos : (0 : ℚ) < b.denominator := by exact_mod_cast b.denominator_pos
    refine ⟨_, denotes_of_ofFloat? hb (.inl hplain), ?_⟩
    have hnear : (2 : ℚ) ^ 52 * |(b.numerator : ℚ) - n * b.denominator| ≤ n * b.denominator := by
      have hcast : (((b.numerator - n * b.denominator : Int).natAbs : Nat) : ℚ) =
          |(b.numerator : ℚ) - n * b.denominator| := by
        rw [Nat.cast_natAbs]
        push_cast
        rfl
      rw [← hcast]
      exact_mod_cast hnear
    rw [b.value_eq_div, Near, div_sub' hpos.ne', abs_div, abs_of_pos hpos, div_le_iff₀ hpos,
      zpow_neg, zpow_ofNat, mul_assoc, inv_mul_eq_div, le_div_iff₀ (by positivity), mul_comm,
      mul_comm (b.denominator : ℚ)]
    exact hnear
  · cases h

theorem denotes_tenPower {scale : Nat} (h : scale ≤ maxScale) :
    ∃ r, Denotes (tenPower scale) r ∧ Near (2 ^ (-52 : Int)) r (10 ^ scale) := by
  obtain ⟨r, hr, hnear⟩ :=
    denotes_of_isNearPower (isNearPower_tenPower ⟨scale, Nat.lt_succ_of_le h⟩)
  exact ⟨r, hr, by exact_mod_cast hnear⟩

theorem beq_zero_iff (h : Denotes x q) : (x == 0) = true ↔ q = 0 := by
  have hzero : form 0 = .zero .positive := rfl
  rw [beq_iff_form, hzero]
  obtain @⟨s, h⟩ | @⟨m, e, h⟩ := h
  · rw [form, h]
    exact iff_of_true ⟨rfl, Float.Model.UnpackedFloat.noConfusion⟩ rfl
  · rw [form, h.unpack]
    exact iff_of_false (fun heq => Float.Model.UnpackedFloat.noConfusion heq.1)
      (binaryValue_pos h.representable.pos).ne'

theorem div_of_near {δ ε p' q' : ℚ} (hx : Denotes x p') (hp : Near δ p' p) (hy : Denotes y q')
    (hq : Near ε q' q) (hδ : δ ≤ 1 / 4) (hε : ε ≤ 1 / 4) (hq₀ : 0 < q)
    (hlow : 1 / 10 ^ 28 ≤ p / q) (hhigh : p / q ≤ 2 ^ 96) :
    ∃ r, Denotes (x / y) r ∧
      Near ((δ + ε) / (1 - ε) + 2 ^ (-53 : Int) + (δ + ε) / (1 - ε) * 2 ^ (-53 : Int)) r (p / q) := by
  have hquotient : 0 < p / q := lt_of_lt_of_le (by norm_num) hlow
  have hp₀ : 0 ≤ p := ((div_pos_iff_of_pos_right hq₀).mp hquotient).le
  have hratio := hp.div hq (by linarith) hp₀ hq₀
  have hloss : (δ + ε) / (1 - ε) ≤ 2 / 3 := by
    rw [div_le_iff₀ (by linarith)]
    linarith
  have hrough := hratio.mono hloss hquotient.le
  have hnormal : 2 ^ (-200 : Int) ≤ p' / q' := by
    have := hrough.ge
    norm_num at this hlow ⊢
    linarith
  have hmax : p' / q' ≤ 2 ^ 200 := by
    have := hrough.le
    norm_num at this hhigh ⊢
    linarith
  have hq' : 0 < q' := by
    have := (hq.mono hε hq₀.le).ge
    linarith
  obtain ⟨r, hr, hround⟩ := hx.div hy hq' (normal_of_le hnormal) (le_maxFloat hmax)
  exact ⟨r, hr, hratio.trans hround (by positivity)⟩

theorem cast_le_of_le_maxCoefficient {c : Nat} (h : c ≤ maxCoefficient) : (c : ℚ) ≤ 2 ^ 96 := by
  rw [maxCoefficient_eq] at h
  exact_mod_cast h.trans (Nat.sub_le _ _)

theorem le_div_pow {c scale : Nat} (hc : 0 < c) (hscale : scale ≤ maxScale) :
    1 / 10 ^ 28 ≤ (c : ℚ) / 10 ^ scale := by
  have hc : (1 : ℚ) ≤ c := by exact_mod_cast hc
  have hunit : (10 : ℚ) ^ scale ≤ 10 ^ 28 := pow_le_pow_right₀ (by norm_num) hscale
  exact div_le_div₀ c.cast_nonneg hc (by positivity) hunit

theorem div_pow_le {c scale : Nat} (hc : c ≤ maxCoefficient) : (c : ℚ) / 10 ^ scale ≤ 2 ^ 96 :=
  (div_le_self c.cast_nonneg (one_le_pow₀ (by norm_num))).trans (cast_le_of_le_maxCoefficient hc)

theorem denotes_unit {scale : Nat} (hscale : scale ≤ maxScale) :
    ∃ u, Denotes (Float.ofNat (10 ^ scale)) u ∧ Near (2 ^ (-53 : Int)) u (10 ^ scale) := by
  have hunit : (10 : ℚ) ^ scale ≤ 10 ^ 28 := pow_le_pow_right₀ (by norm_num) hscale
  obtain ⟨u, hu, hnear⟩ := denotes_ofNat (10 ^ scale) (le_maxFloat (by push_cast; linarith))
  exact ⟨u, hu, by exact_mod_cast hnear⟩

theorem denotes_part {r scale : Nat} (hr : 0 < r) (hle : r ≤ maxCoefficient)
    (hscale : scale ≤ maxScale) :
    ∃ t, Denotes (Float.ofNat r / Float.ofNat (10 ^ scale)) t ∧
      Near (2 ^ (-50 : Int)) t (r / 10 ^ scale) := by
  have hle' := cast_le_of_le_maxCoefficient hle
  obtain ⟨p, hp, hnear⟩ := denotes_ofNat r (le_maxFloat (by linarith))
  obtain ⟨u, hu, hunit⟩ := denotes_unit hscale
  obtain ⟨t, ht, hround⟩ := div_of_near hp hnear hu hunit (by norm_num) (by norm_num)
    (by positivity) (le_div_pow hr hscale) (div_pow_le hle)
  exact ⟨t, ht, hround.mono (by norm_num) (by positivity)⟩

theorem denotes_no_part {scale : Nat} (hscale : scale ≤ maxScale) :
    Denotes (Float.ofNat 0 / Float.ofNat (10 ^ scale)) 0 := by
  obtain ⟨u, hu, hnear⟩ := denotes_unit hscale
  have hu₀ : 0 < u := lt_of_lt_of_le (mul_pos (by norm_num) (by positivity)) hnear.ge
  exact Denotes.zero_div (by exact_mod_cast denotes_ofNat_of_lt (Nat.two_pow_pos 53)) hu hu₀

/-- What is near to a small whole number is rounded to it. -/
theorem near_of_rounded {n c : Nat} {r : ℚ} (hnear : Near (2 ^ (-48 : Int)) r c)
    (hround : |n - r| ≤ 1 / 2) : Near (2 ^ (-40 : Int)) n c := by
  have herror : |(n : ℚ) - c| ≤ 1 / 2 + 2 ^ (-48 : Int) * c :=
    (abs_sub_le _ r _).trans (add_le_add hround hnear)
  obtain hsmall | hlarge := Nat.lt_or_ge c (2 ^ 40)
  · have hsmall : (c : ℚ) < 2 ^ 40 := by exact_mod_cast hsmall
    have hlt : |((n : Int) - c : ℚ)| < 1 := by
      norm_num at herror ⊢
      linarith
    have heq : (n : Int) - c = 0 := Int.abs_lt_one_iff.mp (by exact_mod_cast hlt)
    rw [show n = c by omega]
    exact .refl (by positivity) c.cast_nonneg
  · have hlarge : (2 : ℚ) ^ 40 ≤ c := by exact_mod_cast hlarge
    refine herror.trans ?_
    norm_num
    linarith

theorem denotes_rounded {c scale : Nat} (hc : 0 < c) (hmax : c ≤ maxCoefficient)
    (hscale : scale ≤ maxScale) (hx : Denotes x p)
    (hnear : Near (2 ^ (-49 : Int)) p (c / 10 ^ scale)) :
    ∃ r, Denotes (roundHalfAway (x * tenPower scale) / tenPower scale) r ∧
      Near (2 ^ (-38 : Int)) r (c / 10 ^ scale) := by
  have hunit₀ : (0 : ℚ) < 10 ^ scale := by positivity
  obtain ⟨t, ht, hten⟩ := denotes_tenPower hscale
  have hproduct := hnear.mul hten (by positivity) (by positivity)
  rw [div_mul_cancel₀ _ hunit₀.ne'] at hproduct
  have hlow : 2 ^ (-200 : Int) ≤ p * t := by
    have hc : (1 : ℚ) ≤ c := by exact_mod_cast hc
    have := hproduct.ge
    norm_num at this ⊢
    linarith
  have hhigh : p * t ≤ 2 ^ 200 := by
    have hc := cast_le_of_le_maxCoefficient hmax
    have := hproduct.le
    norm_num at this ⊢
    linarith
  obtain ⟨r, hr, hround⟩ := hx.mul ht (normal_of_le hlow) (le_maxFloat hhigh)
  obtain ⟨n, hn, hhalf⟩ := hr.roundHalfAway
  have hnear := near_of_rounded
    ((hproduct.trans hround (by positivity)).mono (by norm_num) (by positivity)) hhalf
  obtain ⟨s, hs, hlast⟩ := div_of_near hn hnear ht hten (by norm_num) (by norm_num) hunit₀
    (le_div_pow hc hscale) (div_pow_le hmax)
  exact ⟨s, hs, hlast.mono (by norm_num) (by positivity)⟩

theorem cast_div_pow_eq (c scale : Nat) :
    (c : ℚ) / 10 ^ scale = (c / 10 ^ scale : Nat) + (c % 10 ^ scale : Nat) / 10 ^ scale := by
  have hdiv : (c : ℚ) = 10 ^ scale * (c / 10 ^ scale : Nat) + (c % 10 ^ scale : Nat) := by
    exact_mod_cast (Nat.div_add_mod c (10 ^ scale)).symm
  rw [div_eq_iff (by positivity), add_mul, div_mul_cancel₀ _ (by positivity), mul_comm]
  exact hdiv

theorem denotes_whole {c : Nat} (hmax : c ≤ maxCoefficient) (scale : Nat) :
    ∃ w, Denotes (Float.ofNat (c / 10 ^ scale)) w ∧
      Near (2 ^ (-53 : Int)) w (c / 10 ^ scale : Nat) := by
  have hle := cast_le_of_le_maxCoefficient ((Nat.div_le_self c (10 ^ scale)).trans hmax)
  exact denotes_ofNat _ (le_maxFloat (by linarith))

theorem denotes_toFloat (h : d.Is q) :
    ∃ r, Denotes d.toFloat r ∧ Near (2 ^ (-38 : Int)) r q := by
  have hsign : (d.negative && d.coefficient != 0) = false := by
    cases hnegative : d.negative with
    | false => rfl
    | true => rw [h.plain hnegative]; rfl
  obtain ⟨w, hw, hwhole⟩ := denotes_whole h.coefficient_le d.scale
  rw [← h.value, toFloat]
  simp only [hsign, Bool.false_eq_true, if_false, Nat.pow_eq]
  split
  · rename_i hscale
    rw [hscale, pow_zero, Nat.div_one] at hw hwhole
    rw [hscale, pow_zero, div_one]
    exact ⟨w, hw, hwhole.mono (by norm_num) (by positivity)⟩
  obtain hzero | hpos := Nat.eq_zero_or_pos (d.coefficient % 10 ^ d.scale)
  · have hpart := denotes_no_part h.scale_le
    rw [cast_div_pow_eq, hzero, if_pos ((beq_zero_iff hpart).mpr rfl), Nat.cast_zero, zero_div,
      add_zero]
    exact ⟨w, hw, hwhole.mono (by norm_num) (Nat.cast_nonneg _)⟩
  · have hle := (Nat.mod_le d.coefficient (10 ^ d.scale)).trans h.coefficient_le
    obtain ⟨t, ht, hpart⟩ := denotes_part hpos hle h.scale_le
    have ht₀ : t ≠ 0 :=
      (lt_of_lt_of_le (mul_pos (by norm_num) (by positivity)) hpart.ge).ne'
    rw [if_neg (mt (beq_zero_iff ht).mp ht₀)]
    have hsum := (hwhole.mono (show 2 ^ (-53 : Int) ≤ 2 ^ (-50 : Int) by norm_num)
      (Nat.cast_nonneg _)).add hpart
    rw [← cast_div_pow_eq] at hsum
    have hmax : w + t ≤ 2 ^ 200 := by
      have hquotient := @div_pow_le d.coefficient d.scale h.coefficient_le
      have := hsum.le
      norm_num at this hquotient ⊢
      linarith
    obtain ⟨s, hs, hround⟩ := hw.add ht (le_maxFloat hmax)
    exact denotes_rounded (hpos.trans_le (Nat.mod_le _ _)) h.coefficient_le h.scale_le hs
      ((hsum.trans hround (by positivity)).mono (by norm_num) (by positivity))

end TableConsole.Number.Decimal
