import Mathlib.Algebra.Order.BigOperators.Group.List
import TableConsole.Number.Arithmetic
import TableConsole.Proofs.Number.DecimalArithmetic
import TableConsole.Proofs.Number.DecimalFloat

/-! # Errors of the reducers

The sum of numbers that are not negative and their mean are off by at most a part of `10 ^ 9` and by a
few units of the last place that decimals have. The units do not count where the numbers are not small
on average. Where decimals overflow the floats are added one to the other, and each of these sums loses
a part, so the list must not be too long.
-/

namespace TableConsole.Number

set_option autoImplicit false

/-- The exact number that a finite float is; that of other floats is of no account. -/
def value (x : Float) : ℚ :=
  match Binary.ofFloat? x with
  | some b =>
    if b.negative then -binaryValue b.significand b.exponent
    else binaryValue b.significand b.exponent
  | none => 0

def exactSum (xs : List Float) : ℚ :=
  (xs.map value).sum

def exactMean (xs : List Float) : ℚ :=
  exactSum xs / xs.length

/-- The float is finite, and off by at most a part of `10 ^ 9` of the number and `τ` more. -/
def Within (τ : ℚ) (x : Float) (q : ℚ) : Prop :=
  x.isFinite = true ∧ |value x - q| ≤ 1 / 10 ^ 9 * q + τ

instance (τ : ℚ) (x : Float) (q : ℚ) : Decidable (Within τ x q) :=
  inferInstanceAs (Decidable (_ ∧ _))

theorem Denotes.value_eq {x : Float} {q : ℚ} (h : Denotes x q) : value x = q := by
  obtain ⟨b, hb, hsign, rfl⟩ := h.ofFloat?
  rw [value, hb]
  dsimp only
  split
  · rename_i hnegative
    rw [hsign.resolve_left (by rw [hnegative]; decide), binaryValue, Nat.cast_zero, zero_mul,
      neg_zero]
  · rfl

theorem Denotes.isFinite {x : Float} {q : ℚ} (h : Denotes x q) : x.isFinite = true := by
  change x.toModel.unpack.isFinite = true
  obtain @⟨s, h⟩ | @⟨m, e, h⟩ := h
  · rw [h]
    rfl
  · rw [h.unpack]
    rfl

theorem denotes_of_isFinite {x : Float} (hfinite : x.isFinite = true) (hx : 0 ≤ value x) :
    Denotes x (value x) := by
  have hb : ∃ b, Binary.ofFloat? x = some b := by
    change x.toModel.unpack.isFinite = true at hfinite
    rw [Binary.ofFloat?_eq]
    cases hu : x.toModel.unpack with
    | zero | finite => exact ⟨_, rfl⟩
    | infinity | notANumber =>
      rw [hu] at hfinite
      cases hfinite
  obtain ⟨b, hb⟩ := hb
  rw [value, hb] at hx ⊢
  dsimp only at hx ⊢
  split at hx
  · rename_i hnegative
    have hzero : b.significand = 0 := by
      by_contra hsignificand
      have := binaryValue_pos (e := b.exponent) (Nat.pos_of_ne_zero hsignificand)
      linarith
    have h := denotes_of_ofFloat? hb (.inr hzero)
    rw [if_pos hnegative]
    rw [hzero, binaryValue, Nat.cast_zero, zero_mul] at h ⊢
    rwa [neg_zero]
  · rename_i hplain
    rw [if_neg hplain]
    exact denotes_of_ofFloat? hb (.inl (Bool.eq_false_iff.mpr hplain))

theorem Denotes.le_maxFloat {x : Float} {p : ℚ} (hx : Denotes x p) : p ≤ maxFloat := by
  obtain _ | @⟨m, e, h⟩ := hx
  · exact mul_nonneg (by norm_num) (by positivity)
  · have hm : (m : ℚ) ≤ 2 ^ 53 - 1 := by
      rw [le_sub_iff_add_le]
      exact_mod_cast h.representable.mantissa
    have he : (2 : ℚ) ^ e ≤ 2 ^ (971 : Int) :=
      zpow_le_zpow_right₀ (by norm_num) h.representable.high
    exact mul_le_mul hm he (by positivity) (by norm_num)

/-- A unit in the last place of the decimals. -/
theorem lastPlace_eq : Decimal.valueOf (1, Decimal.maxScale) = 1 / 10 ^ 28 := by
  norm_num [Decimal.valueOf, Decimal.maxScale]

section Sum

variable {xs : List Float} {qs : List ℚ}

theorem forall_nonneg (hxs : List.Forall₂ Denotes xs qs) : ∀ q ∈ qs, 0 ≤ q := by
  induction hxs with
  | nil => exact fun q hq => (nomatch hq)
  | cons hx _ ih => exact List.forall_mem_cons.mpr ⟨hx.nonneg, ih⟩

/-- The conversions lose up to two last places each, and the sums a part of what was converted. -/
theorem foldlM_close (hxs : List.Forall₂ Denotes xs qs) {total d : Decimal} {t exact : ℚ} {n : Nat}
    (ht : total.Is t) (hnear : Near ((1 + 2 ^ (-92 : Int)) ^ n - 1) t exact)
    (h : xs.foldlM (fun total x => do total.add? (← Decimal.ofFloat? x)) total = some d) :
    ∃ s r, 0 ≤ s ∧ Close (2 ^ (-43 : Int)) (xs.length * (2 / 10 ^ 28)) s qs.sum ∧ d.Is r ∧
      Near ((1 + 2 ^ (-92 : Int)) ^ (n + xs.length) - 1) r (exact + s) := by
  induction hxs generalizing total t exact n with
  | nil =>
    cases h
    exact ⟨0, t, le_rfl, ⟨by simp, fun _ => rfl⟩, ht, by simpa using hnear⟩
  | @cons x q xs qs hx hxs ih =>
    obtain ⟨total', hadd, hrest⟩ := Option.bind_eq_some_iff.mp h
    obtain ⟨term, hterm, hadd⟩ := Option.bind_eq_some_iff.mp hadd
    obtain ⟨r, hr, hclose⟩ := Decimal.ofFloat?_close hx hterm
    obtain ⟨t', ht', hstep⟩ := Decimal.add?_near ht hr hadd
    obtain ⟨s, last, hs, hrs, hlast, hsum⟩ :=
      ih ht' (hnear.step hstep (by positivity) hr.nonneg) hrest
    refine ⟨r + s, last, add_nonneg hr.nonneg hs, ?_, hlast, ?_⟩
    · rw [lastPlace_eq, mul_one_div] at hclose
      rw [List.sum_cons, List.length_cons, Nat.cast_add_one, add_one_mul, add_comm (_ * _)]
      exact hclose.add hrs hx.nonneg (List.sum_nonneg (forall_nonneg hxs))
    · rw [List.length_cons, ← add_assoc, ← add_assoc, Nat.add_right_comm]
      exact hsum

/-- The decimals do not overflow while the numbers leave room for their errors. -/
theorem foldlM_isSome (hxs : List.Forall₂ Denotes xs qs) {total : Decimal} {t : ℚ} (ht : total.Is t)
    (hroom : t + 3 / 2 * qs.sum + 20 * xs.length ≤ Decimal.maxCoefficient) :
    ∃ d, xs.foldlM (fun total x => do total.add? (← Decimal.ofFloat? x)) total = some d := by
  induction hxs generalizing total t with
  | nil => exact ⟨total, rfl⟩
  | @cons x q xs qs hx hxs ih =>
    have hqs : 0 ≤ qs.sum := List.sum_nonneg (forall_nonneg hxs)
    rw [List.sum_cons, List.length_cons] at hroom
    push_cast at hroom
    have ht₀ := ht.nonneg
    have hq₀ := hx.nonneg
    have hlength : (0 : ℚ) ≤ xs.length := Nat.cast_nonneg _
    obtain ⟨term, hterm⟩ := Decimal.ofFloat?_isSome hx (by linarith)
    obtain ⟨r, hr, hclose⟩ := Decimal.ofFloat?_close hx hterm
    have hr₁ : r ≤ 3 / 2 * q + 1 := by
      have := (abs_le.mp hclose.error_le).2
      rw [lastPlace_eq] at this
      norm_num at this
      linarith
    obtain ⟨total', hadd⟩ := Decimal.add?_isSome ht hr (by linarith)
    obtain ⟨t', ht', hstep⟩ := Decimal.add?_near ht hr hadd
    have ht'₁ : t' ≤ t + r + 16 := by
      have hle := hstep.le
      have hmax := Decimal.cast_le_of_le_maxCoefficient le_rfl
      norm_num at hle
      linarith
    obtain ⟨d, hd⟩ := ih ht' (by linarith)
    refine ⟨d, ?_⟩
    rw [List.foldlM_cons, hterm]
    change (total.add? term).bind _ = some d
    rw [hadd]
    exact hd

theorem decimal_loss_le {n : Nat} (hn : n ≤ 2 ^ 60) :
    (1 + 2 ^ (-92 : Int) : ℚ) ^ n - 1 ≤ 24 / 10 ^ 11 := by
  have hsum : (n : ℚ) * 2 ^ (-92 : Int) ≤ 2 ^ 60 * 2 ^ (-92 : Int) := by
    gcongr
    exact_mod_cast hn
  exact (pow_sub_one_le (by positivity) hsum (by norm_num)).trans (by norm_num)

theorem float_loss_le {n : Nat} (hn : n ≤ 2 ^ 23) :
    (1 + 2 ^ (-53 : Int) : ℚ) ^ n - 1 ≤ 94 / 10 ^ 11 := by
  have hsum : (n : ℚ) * 2 ^ (-53 : Int) ≤ 2 ^ 23 * 2 ^ (-53 : Int) := by
    gcongr
    exact_mod_cast hn
  exact (pow_sub_one_le (by positivity) hsum (by norm_num)).trans (by norm_num)

theorem sum_close_of_decimals (hxs : List.Forall₂ Denotes xs qs) {d : Decimal}
    (h : decimalSum? xs = some d) (hlength : xs.length ≤ 2 ^ 60) :
    ∃ r, Denotes (sum xs) r ∧ Close (25 / 10 ^ 11) (xs.length * (5 / 2 / 10 ^ 28)) r qs.sum := by
  have hempty : Near ((1 + 2 ^ (-92 : Int)) ^ 0 - 1) 0 0 := .refl (by norm_num) le_rfl
  obtain ⟨s, t, hs, hclose, ht, hsum⟩ := foldlM_close hxs Decimal.is_zero hempty h
  obtain ⟨r, hr, hfloat⟩ := Decimal.denotes_toFloat ht
  rw [zero_add, zero_add] at hsum
  have hdecimal := hclose.trans (.of_near (hsum.mono (decimal_loss_le hlength) hs)) (by norm_num)
  refine ⟨r, ?_, (hdecimal.trans (.of_near hfloat) (by positivity)).mono (by norm_num) ?_
    (List.sum_nonneg (forall_nonneg hxs))⟩
  · rw [sum, h]
    exact hr
  · have hcount : (0 : ℚ) ≤ xs.length := Nat.cast_nonneg _
    norm_num
    linarith

theorem sum_near_of_floats (hxs : List.Forall₂ Denotes xs qs) (h : decimalSum? xs = none)
    (hfinite : (xs.foldl (· + ·) (-0.0)).isFinite = true) (hlength : xs.length ≤ 2 ^ 23) :
    ∃ r, Denotes (sum xs) r ∧ Near (94 / 10 ^ 11) r qs.sum := by
  have hempty : Near ((1 + 2 ^ (-53 : Int)) ^ 0 - 1) 0 0 := .refl (by norm_num) le_rfl
  have hzero : Denotes (-0.0) 0 :=
    .zero (show (-0.0 : Float).toModel.unpack = .zero .negative from rfl)
  obtain ⟨r, hr, hnear⟩ := foldl_near hxs hzero hempty hfinite
  rw [zero_add, zero_add] at hnear
  refine ⟨r, ?_, hnear.mono (float_loss_le hlength) (List.sum_nonneg (forall_nonneg hxs))⟩
  rw [sum, h]
  exact hr

end Sum

section Quotient

variable {x y : Float} {p q : ℚ}

theorem decimalQuotient_close (hx : Denotes x p) (hy : Denotes y q) (hq : 1 ≤ q) {z : Float}
    (h : Operation.divide.decimal? x y = some z) :
    ∃ r, Denotes z r ∧ Close (2 ^ (-37 : Int)) (31 / 10 / 10 ^ 28) r (p / q) := by
  obtain ⟨a, ha, h⟩ := Option.bind_eq_some_iff.mp h
  obtain ⟨b, hb, h⟩ := Option.bind_eq_some_iff.mp h
  obtain ⟨d, hd, h⟩ := Option.bind_eq_some_iff.mp h
  cases h
  obtain ⟨p', hp', hclose⟩ := Decimal.ofFloat?_close hx ha
  obtain ⟨q', hq', hclose'⟩ := Decimal.ofFloat?_close hy hb
  obtain ⟨r, hr, hdiv⟩ := Decimal.div?_close hp' hq' hd
  obtain ⟨t, ht, hfloat⟩ := Decimal.denotes_toFloat hr
  have hq₀ : 0 < q := one_pos.trans_le hq
  rw [lastPlace_eq] at hclose hclose' hdiv
  have hdivisor := (Near.refl le_rfl hp'.nonneg).div
    (hclose'.near (by norm_num) one_pos (.inr hq)) (by norm_num) hp'.nonneg hq₀
  have hratio := (((hclose.div_right hq₀).trans (.of_near hdivisor) (by norm_num)).trans hdiv
    (by positivity)).trans (.of_near hfloat) (by positivity)
  refine ⟨t, ht, hratio.mono (by norm_num) ?_ (div_nonneg hx.nonneg hq₀.le)⟩
  have hshare : 2 * (1 / 10 ^ 28) / q ≤ 2 * (1 / 10 ^ 28) := div_le_self (by norm_num) hq
  norm_num at hshare ⊢
  linarith

theorem decimalQuotient_isSome (hx : Denotes x p) (hy : Denotes y q) (hq : 1 ≤ q)
    (hp : p ≤ Decimal.maxCoefficient) (hmax : q ≤ Decimal.maxCoefficient)
    (hwhole : 2 ^ 52 ≤ q ∨ ∃ n : Nat, q = n) : ∃ z, Operation.divide.decimal? x y = some z := by
  obtain ⟨a, ha⟩ := Decimal.ofFloat?_isSome hx hp
  obtain ⟨b, hb⟩ := Decimal.ofFloat?_isSome hy hmax
  obtain ⟨p', hp', -⟩ := Decimal.ofFloat?_close hx ha
  obtain ⟨q', hq', hclose⟩ := Decimal.ofFloat?_close hy hb
  have hscale := Decimal.scale_ofFloat? hy hb hwhole
  have hq₁ : 1 ≤ q' := by
    have hpos : 0 < q' := by
      have := (abs_le.mp hclose.error_le).1
      rw [lastPlace_eq] at this
      norm_num at this
      linarith
    rw [← hq'.value, hscale, pow_zero, div_one] at hpos ⊢
    exact_mod_cast hpos
  obtain ⟨d, hd⟩ := Decimal.div?_isSome hp' hq' hscale hq₁
  exact ⟨d.toFloat, by simp [Operation.decimal?, Operation.onDecimals?, ha, hb, hd]⟩

theorem quotient_close (hx : Denotes x p) (hy : Denotes y q) (hq : 1 ≤ q) (hmax : q ≤ 2 ^ 61)
    (hwhole : 2 ^ 52 ≤ q ∨ ∃ n : Nat, q = n) :
    ∃ r, Denotes (quotient x y) r ∧ Close (2 ^ (-37 : Int)) (31 / 10 / 10 ^ 28) r (p / q) := by
  have hq₀ : 0 < q := one_pos.trans_le hq
  rw [quotient]
  cases h : Operation.divide.decimal? x y with
  | some z => exact decimalQuotient_close hx hy hq h
  | none =>
    have hlarge : (2 : ℚ) ^ 95 ≤ p := by
      by_contra hsmall
      have hroom : (2 : ℚ) ^ 95 ≤ Decimal.maxCoefficient := by
        rw [Decimal.maxCoefficient_eq]
        norm_num
      obtain ⟨z, hz⟩ := decimalQuotient_isSome hx hy hq (by linarith) (by linarith) hwhole
      rw [h] at hz
      cases hz
    have hone : 1 ≤ p / q := by
      rw [one_le_div hq₀]
      linarith
    have hnormal : (2 : ℚ) ^ (-200 : Int) ≤ p / q := le_trans (by norm_num) hone
    obtain ⟨r, hr, hnear⟩ := hx.div hy hq₀ (normal_of_le hnormal)
      ((div_le_self hx.nonneg hq).trans hx.le_maxFloat)
    exact ⟨r, hr, (Close.of_near hnear).mono (by norm_num) (by norm_num) (one_pos.le.trans hone)⟩

end Quotient

section Mean

variable {xs : List Float}

theorem denotes_length {n : Nat} (hpos : 0 < n) (hn : n ≤ 2 ^ 60) :
    ∃ q, Denotes (Float.ofNat n) q ∧ Near (2 ^ (-53 : Int)) q n ∧ 1 ≤ q ∧ q ≤ 2 ^ 61 ∧
      (2 ^ 52 ≤ q ∨ ∃ k : Nat, q = k) := by
  obtain hsmall | hlarge := Nat.lt_or_ge n (2 ^ 53)
  · refine ⟨n, denotes_ofNat_of_lt hsmall, .refl (by positivity) n.cast_nonneg, ?_, ?_,
      .inr ⟨n, rfl⟩⟩
    · exact_mod_cast hpos
    · exact_mod_cast hn.trans (by norm_num)
  · have hn : (n : ℚ) ≤ 2 ^ 60 := by exact_mod_cast hn
    have hlarge : (2 : ℚ) ^ 53 ≤ n := by exact_mod_cast hlarge
    obtain ⟨q, hq, hnear⟩ := denotes_ofNat n (le_maxFloat (hn.trans (by norm_num)))
    have hle := hnear.le
    have hge := hnear.ge
    norm_num at hle hge
    exact ⟨q, hq, hnear, by linarith, by linarith, .inl (by linarith)⟩

/-- A mean takes over the errors of the sum and adds those of one division. -/
theorem mean_close (hne : xs ≠ []) (hlength : xs.length ≤ 2 ^ 60) {r exact δ σ : ℚ}
    (hr : Denotes (sum xs) r) (hsum : Close δ (xs.length * σ) r exact) (hδ : δ ≤ 1 / 10 ^ 9)
    (hσ : 0 ≤ σ) (hexact : 0 ≤ exact) :
    ∃ m, Denotes (mean xs) m ∧
      Close (δ + 8 / 10 ^ 12) (11 / 10 * σ + 31 / 10 / 10 ^ 28) m (exact / xs.length) := by
  have hpos := List.length_pos_iff.mpr hne
  obtain ⟨q, hq, hcount, hone, hmax, hwhole⟩ := denotes_length hpos hlength
  obtain ⟨m, hm, hquotient⟩ := quotient_close hr hq hone hmax hwhole
  have hlength₀ : (0 : ℚ) < xs.length := by exact_mod_cast hpos
  have hshare := hsum.div_right hlength₀
  rw [mul_div_cancel_left₀ _ hlength₀.ne'] at hshare
  have hdivisor := (Near.refl le_rfl hr.nonneg).div hcount (by norm_num) hr.nonneg hlength₀
  have hmean := (hshare.trans (.of_near hdivisor) (by norm_num)).trans hquotient (by positivity)
  refine ⟨m, ?_, hmean.mono ?_ ?_ (div_nonneg hexact hlength₀.le)⟩
  · rw [mean, if_neg (by simpa using hne)]
    exact hm
  · norm_num
    linarith
  · norm_num
    linarith

end Mean

theorem Denotes.within {x : Float} {r q δ σ τ : ℚ} (hx : Denotes x r) (h : Close δ σ r q)
    (hδ : δ ≤ 1 / 10 ^ 9) (hτ : σ ≤ τ) (hq : 0 ≤ q) : Within τ x q :=
  ⟨hx.isFinite, hx.value_eq ▸ (h.mono hδ hτ hq).error_le⟩

theorem Denotes.within_zero {x : Float} {r q δ σ bound : ℚ} (hx : Denotes x r) (h : Close δ σ r q)
    (hσ : 0 ≤ σ) (hbound : 0 < bound) (hlow : q = 0 ∨ bound ≤ q)
    (hpart : δ + σ / bound ≤ 1 / 10 ^ 9) (hq : 0 ≤ q) : Within 0 x q :=
  hx.within (.of_near (h.near hσ hbound hlow)) hpart le_rfl hq

theorem forall₂_denotes {xs : List Float} (hxs : ∀ x ∈ xs, x.isFinite = true ∧ 0 ≤ value x) :
    List.Forall₂ Denotes xs (xs.map value) := by
  rw [List.forall₂_map_right_iff, List.forall₂_same]
  exact fun x hx => denotes_of_isFinite (hxs x hx).1 (hxs x hx).2

theorem le_exactSum_of_decimalSum? {xs : List Float} (hqs : List.Forall₂ Denotes xs (xs.map value))
    (hlength : xs.length ≤ 2 ^ 60) (h : decimalSum? xs = none) : 2 ^ 95 ≤ exactSum xs := by
  by_contra hsmall
  have hlength : (xs.length : ℚ) ≤ 2 ^ 60 := by exact_mod_cast hlength
  have hroom : 0 + 3 / 2 * exactSum xs + 20 * xs.length ≤ Decimal.maxCoefficient := by
    rw [Decimal.maxCoefficient_eq]
    norm_num at hsmall ⊢
    linarith
  obtain ⟨d, hd⟩ := foldlM_isSome hqs Decimal.is_zero hroom
  cases h.symm.trans hd

theorem within_of_close {xs : List Float} (hne : xs ≠ []) (hlength : xs.length ≤ 2 ^ 60)
    {r δ σ : ℚ} (hr : Denotes (sum xs) r) (hsum : Close δ (xs.length * σ) r (exactSum xs))
    (hsum₀ : 0 ≤ exactSum xs) (hδ : δ ≤ 95 / 10 ^ 11) (hσ : 0 ≤ σ) (hσ₁ : σ ≤ 5 / 2 / 10 ^ 28) :
    Within (3 * xs.length / 10 ^ 28) (sum xs) (exactSum xs) ∧
      Within (6 / 10 ^ 28) (mean xs) (exactMean xs) ∧
      ∀ bound > 0, exactSum xs = 0 ∨ bound ≤ exactMean xs →
        δ + 8 / 10 ^ 12 + (11 / 10 * σ + 31 / 10 / 10 ^ 28) / bound ≤ 1 / 10 ^ 9 →
        Within 0 (sum xs) (exactSum xs) ∧ Within 0 (mean xs) (exactMean xs) := by
  have hlength₀ : (0 : ℚ) < xs.length := by exact_mod_cast List.length_pos_iff.mpr hne
  have hmean₀ : 0 ≤ exactMean xs := div_nonneg hsum₀ hlength₀.le
  obtain ⟨m, hm, hmean⟩ := mean_close hne hlength hr hsum (by linarith) hσ hsum₀
  have hunits : xs.length * σ ≤ 3 * xs.length / 10 ^ 28 := by
    have := mul_le_mul_of_nonneg_left hσ₁ hlength₀.le
    linarith
  refine ⟨hr.within hsum (by linarith) hunits hsum₀,
    hm.within hmean (by linarith) (by linarith) hmean₀, fun bound hbound hlow hpart => ⟨?_, ?_⟩⟩
  · have hlow : exactSum xs = 0 ∨ xs.length * bound ≤ exactSum xs :=
      hlow.imp_right fun hlow => by rwa [exactMean, le_div_iff₀' hlength₀] at hlow
    refine hr.within_zero hsum (by positivity) (by positivity) hlow ?_ hsum₀
    rw [mul_div_mul_left _ _ hlength₀.ne']
    have hle : σ / bound ≤ (11 / 10 * σ + 31 / 10 / 10 ^ 28) / bound := by
      gcongr
      linarith
    linarith
  · have hlow : exactMean xs = 0 ∨ bound ≤ exactMean xs :=
      hlow.imp_left fun hzero => by rw [exactMean, hzero, zero_div]
    exact hm.within_zero hmean (by positivity) hbound hlow hpart hmean₀

theorem reducers_keep_magnitude {xs : List Float} (hne : xs ≠ [])
    (hxs : ∀ x ∈ xs, x.isFinite = true ∧ 0 ≤ value x)
    (hfinite : (xs.foldl (· + ·) (-0.0)).isFinite = true) (hlength : xs.length ≤ 2 ^ 60)
    (hlong : 2 ^ 95 ≤ exactSum xs → xs.length ≤ 2 ^ 23) :
    Within (3 * xs.length / 10 ^ 28) (sum xs) (exactSum xs) ∧
      Within (6 / 10 ^ 28) (mean xs) (exactMean xs) ∧
      (exactSum xs = 0 ∨ 1 / 10 ^ 18 ≤ exactMean xs →
        Within 0 (sum xs) (exactSum xs) ∧ Within 0 (mean xs) (exactMean xs)) := by
  have hqs := forall₂_denotes hxs
  have hsum₀ : 0 ≤ exactSum xs := List.sum_nonneg (forall_nonneg hqs)
  cases h : decimalSum? xs with
  | some d =>
    obtain ⟨r, hr, hsum⟩ := sum_close_of_decimals hqs h hlength
    obtain ⟨hunits, hunits', hkeep⟩ :=
      within_of_close hne hlength hr hsum hsum₀ (by norm_num) (by norm_num) le_rfl
    exact ⟨hunits, hunits', fun hlow => hkeep _ (by norm_num) hlow (by norm_num)⟩
  | none =>
    have hlarge := le_exactSum_of_decimalSum? hqs hlength h
    have hshort : (xs.length : ℚ) ≤ 2 ^ 23 := by exact_mod_cast hlong hlarge
    obtain ⟨r, hr, hsum⟩ := sum_near_of_floats hqs h hfinite (hlong hlarge)
    have hsum : Close (94 / 10 ^ 11) (xs.length * 0) r (exactSum xs) := by
      rw [mul_zero]
      exact .of_near hsum
    obtain ⟨hunits, hunits', hkeep⟩ :=
      within_of_close hne hlength hr hsum hsum₀ (by norm_num) le_rfl (by norm_num)
    -- The sum is so great that the mean is not small.
    have hone : 1 ≤ exactMean xs := by
      rw [exactMean, one_le_div (by exact_mod_cast List.length_pos_iff.mpr hne)]
      linarith
    exact ⟨hunits, hunits', fun _ => hkeep 1 one_pos (.inr hone) (by norm_num)⟩

theorem reducers_keep_magnitude_tenths :
    (∀ x ∈ [0.1, 0.2], x.isFinite = true ∧ 0 ≤ value x) ∧
      1 / 10 ^ 18 ≤ exactMean [0.1, 0.2] ∧ exactSum [0.1, 0.2] < 2 ^ 95 ∧
      Within 0 (sum [0.1, 0.2]) (exactSum [0.1, 0.2]) ∧
      Within 0 (mean [0.1, 0.2]) (exactMean [0.1, 0.2]) := by
  have hxs : ∀ x ∈ [0.1, 0.2], x.isFinite = true ∧ 0 ≤ value x := by decide +kernel
  have hfinite : ([0.1, 0.2].foldl (· + ·) (-0.0 : Float)).isFinite = true := by decide +kernel
  have hlow : 1 / 10 ^ 18 ≤ exactMean [0.1, 0.2] := by decide +kernel
  have hsmall : exactSum [0.1, 0.2] < 2 ^ 95 := by decide +kernel
  have h := reducers_keep_magnitude (by simp) hxs hfinite (by decide)
    (fun h => absurd h hsmall.not_ge)
  exact ⟨hxs, hlow, hsmall, h.2.2 (.inr hlow)⟩

/-- A number behind the last place is lost as a whole, while the sum of floats is the number. -/
theorem reducers_lose_small_numbers :
    (1e-30 : Float).isFinite = true ∧ 0 < value 1e-30 ∧
      [1e-30].foldl (· + ·) (-0.0 : Float) = 1e-30 ∧ sum [1e-30] = 0 ∧ mean [1e-30] = 0 ∧
      ¬ Within 0 (sum [1e-30]) (exactSum [1e-30]) ∧
      ¬ Within 0 (mean [1e-30]) (exactMean [1e-30]) := by
  decide +kernel

/-- In floats half a unit in the last place of the sum, here `2 ^ 43` of `2 ^ 96`, is lost each time
it is added. -/
theorem sum_eq_first (n : Nat) :
    sum (79228162514264337593543950336 :: List.replicate n 8796093022208) =
      79228162514264337593543950336 := by
  have hdecimal : Decimal.ofFloat? 79228162514264337593543950336 = none := by decide +kernel
  have hfirst : (-0.0 + 79228162514264337593543950336 : Float) = 79228162514264337593543950336 := by
    decide +kernel
  have hnext : (79228162514264337593543950336 + 8796093022208 : Float) =
      79228162514264337593543950336 := by decide +kernel
  have hnone (xs : List Float) : decimalSum? (79228162514264337593543950336 :: xs) = none := by
    rw [decimalSum?, List.foldlM_cons, hdecimal]
    rfl
  rw [sum, hnone, List.foldl_cons, hfirst]
  dsimp only
  induction n with
  | zero => rfl
  | succ n ih => rw [List.replicate_succ, List.foldl_cons, hnext, ih]

/-- So the sums of long lists may lose more than a part of `10 ^ 9`. -/
theorem sum_loses_long_lists {n : Nat} (hn : 9007200 ≤ n) :
    ¬ Within 0 (sum (79228162514264337593543950336 :: List.replicate n 8796093022208))
      (exactSum (79228162514264337593543950336 :: List.replicate n 8796093022208)) := by
  have hvalue : value 79228162514264337593543950336 = 2 ^ 96 := by decide +kernel
  have hvalue' : value 8796093022208 = 2 ^ 43 := by decide +kernel
  rintro ⟨-, hnear⟩
  rw [sum_eq_first, exactSum, List.map_cons, List.map_replicate, List.sum_cons, List.sum_replicate,
    nsmul_eq_mul, hvalue, hvalue'] at hnear
  have hn : (9007200 : ℚ) ≤ n := by exact_mod_cast hn
  have hloss := (abs_le.mp hnear).1
  norm_num at hloss
  linarith

end TableConsole.Number
