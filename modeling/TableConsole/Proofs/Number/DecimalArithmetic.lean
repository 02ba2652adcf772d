import TableConsole.Proofs.Number.Conversion

/-! # Errors of decimal arithmetic

A sum of decimals loses digits only where its coefficient is full, and a quotient ends where its
coefficient is full or at the last place there is. So both are off by at most a part of `2 ^ 92`, and
the quotient by a unit of the last place more.
-/

namespace TableConsole.Number.Decimal

set_option autoImplicit false

variable {a b d : Decimal} {p q : ℚ}

theorem Is.nonneg (h : d.Is q) : 0 ≤ q :=
  h.value ▸ div_nonneg d.coefficient.cast_nonneg (by positivity)

theorem is_zero : zero.Is 0 :=
  ⟨fun _ => rfl, Nat.zero_le _, Nat.zero_le _, by simp [zero]⟩

theorem le_part {c : ℚ} (h : (maxCoefficient : ℚ) ≤ 10 * c + 9) : 3 / 2 ≤ 2 ^ (-92 : Int) * c := by
  have hmax : (maxCoefficient : ℚ) = 2 ^ 96 - 1 := by
    rw [maxCoefficient_eq]
    norm_num
  rw [hmax] at h
  rw [zpow_neg, zpow_ofNat, inv_mul_eq_div, le_div_iff₀ (by positivity)]
  linarith

theorem abs_divHalfEven_sub_le (m : Nat) {n : Nat} (hn : 0 < n) :
    |(divHalfEven m n : ℚ) - m / n| ≤ 1 := by
  have hn₀ : (0 : ℚ) < n := by exact_mod_cast hn
  have hm : (m : ℚ) / n = (m / n : Nat) + (m % n : Nat) / n := by
    rw [div_eq_iff hn₀.ne', add_mul, div_mul_cancel₀ _ hn₀.ne', mul_comm]
    exact_mod_cast (Nat.div_add_mod m n).symm
  have hlt : ((m % n : Nat) : ℚ) / n < 1 := (div_lt_one hn₀).mpr (by exact_mod_cast Nat.mod_lt m hn)
  have hnonneg : (0 : ℚ) ≤ (m % n : Nat) / n := by positivity
  rw [divHalfEven, hm, abs_le]
  split
  · push_cast
    constructor <;> linarith
  · constructor <;> linarith

theorem divHalfEven_one (m : Nat) : divHalfEven m 1 = m := by
  simp [divHalfEven, Nat.mod_one]

/-- Either nothing is dropped or the coefficient was full with one digit more. -/
theorem divHalfEven_near {m scale kept : Nat} (hkept : kept ≤ scale)
    (hfull : kept = scale ∨ (maxCoefficient : ℚ) ≤ 10 * (m / 10 ^ (scale - kept)) + 1) :
    Near (2 ^ (-92 : Int)) (valueOf (divHalfEven m (Nat.pow 10 (scale - kept)), kept))
      (valueOf (m, scale)) := by
  obtain rfl | hfull := hfull
  · rw [Nat.sub_self, Nat.pow_eq, pow_zero, divHalfEven_one]
    exact .refl (by positivity) (valueOf_nonneg _)
  · have hround := abs_divHalfEven_sub_le m
      (Nat.pow_pos (n := scale - kept) (show 0 < 10 by decide))
    push_cast at hround
    have hpart := le_part (c := m / 10 ^ (scale - kept)) (by linarith)
    have hscale : valueOf (m, scale) = m / 10 ^ (scale - kept) / 10 ^ kept := by
      rw [valueOf, div_div, ← pow_add, Nat.sub_add_cancel hkept]
    rw [hscale]
    exact Near.div_right (hround.trans (by linarith)) (by positivity)

/-- A scale is given up only where the coefficient is full. -/
theorem fitFrom_near {m scale kept : Nat} {d : Nat × Nat} (hkept : kept ≤ scale)
    (hfull : kept = scale ∨ (maxCoefficient : ℚ) ≤ 10 * (m / 10 ^ (scale - kept)) + 1)
    (h : fitFrom m scale kept = some d) :
    d.1 ≤ maxCoefficient ∧ d.2 ≤ kept ∧
      Near (2 ^ (-92 : Int)) (valueOf d) (valueOf (m, scale)) := by
  induction kept with
  | zero =>
    have hnear := divHalfEven_near hkept hfull
    rw [Nat.sub_zero] at hnear
    rw [fitFrom] at h
    split at h
    · rename_i hle
      cases h
      exact ⟨hle, le_rfl, hnear⟩
    · cases h
  | succ kept ih =>
    rw [fitFrom] at h
    split at h
    · rename_i hle
      cases h
      exact ⟨hle, le_rfl, divHalfEven_near hkept hfull⟩
    · rename_i hlarge
      have hfull : (maxCoefficient : ℚ) ≤ 10 * (m / 10 ^ (scale - kept)) + 1 := by
        have hround := (abs_le.mp (abs_divHalfEven_sub_le m
          (Nat.pow_pos (n := scale - (kept + 1)) (show 0 < 10 by decide)))).2
        have hlarge : (maxCoefficient : ℚ) ≤ divHalfEven m (10 ^ (scale - (kept + 1))) := by
          exact_mod_cast (not_le.mp hlarge).le
        rw [show scale - kept = scale - (kept + 1) + 1 by omega, pow_succ, ← div_div,
          mul_div_cancel₀ _ (by norm_num)]
        push_cast at hround
        linarith
      obtain ⟨hle, hscale, hnear⟩ := ih (by omega) (.inr hfull) h
      exact ⟨hle, hscale.trans (Nat.le_succ kept), hnear⟩

theorem fitFrom_isSome {m scale : Nat} (h : valueOf (m, scale) + 1 ≤ maxCoefficient) (kept : Nat) :
    ∃ d, fitFrom m scale kept = some d := by
  induction kept with
  | zero =>
    have hround := (abs_le.mp (abs_divHalfEven_sub_le m
      (Nat.pow_pos (n := scale) (show 0 < 10 by decide)))).2
    rw [valueOf] at h
    push_cast at hround
    have hle : divHalfEven m (10 ^ scale) ≤ maxCoefficient := by
      exact_mod_cast (by linarith : (divHalfEven m (10 ^ scale) : ℚ) ≤ maxCoefficient)
    exact ⟨_, if_pos hle⟩
  | succ kept ih =>
    rw [fitFrom]
    split
    · exact ⟨_, rfl⟩
    · exact ih

/-- The coefficients are added at the greater scale. -/
theorem add?_eq (ha : a.Is p) (hb : b.Is q) (hpa : a.coefficient ≠ 0) (hpb : b.coefficient ≠ 0) :
    ∃ m scale, scale ≤ maxScale ∧ valueOf (m, scale) = p + q ∧
      a.add? b = (fitFrom m scale scale).map fun d => ⟨false, d.1, d.2⟩ := by
  have hna : a.negative = false := Bool.eq_false_iff.mpr (mt ha.plain hpa)
  have hnb : b.negative = false := Bool.eq_false_iff.mpr (mt hb.plain hpb)
  generalize hscale : max a.scale b.scale = scale
  have hle : scale ≤ maxScale := hscale ▸ max_le ha.scale_le hb.scale_le
  have hshift {d : Decimal} {q : ℚ} (hd : d.Is q) (hs : d.scale ≤ scale) :
      valueOf (d.coefficient * 10 ^ (scale - d.scale), scale) = q := by
    have hpower : (10 : ℚ) ^ scale = 10 ^ (scale - d.scale) * 10 ^ d.scale := by
      rw [← pow_add, Nat.sub_add_cancel hs]
    rw [valueOf, hpower, ← hd.value]
    push_cast
    field_simp
  refine ⟨a.coefficient * 10 ^ (scale - a.scale) + b.coefficient * 10 ^ (scale - b.scale), scale,
    hle, ?_, ?_⟩
  · rw [← hshift ha (hscale ▸ le_max_left _ _), ← hshift hb (hscale ▸ le_max_right _ _), valueOf,
      valueOf, valueOf, ← add_div]
    push_cast
    rfl
  · have htotal : (a.coefficient : Int) * (Nat.pow 10 (scale - a.scale) : Nat) +
        b.coefficient * (Nat.pow 10 (scale - b.scale) : Nat) =
        (a.coefficient * 10 ^ (scale - a.scale) +
          b.coefficient * 10 ^ (scale - b.scale) : Nat) := by
      push_cast
      rfl
    rw [add?, if_neg hpa, if_neg hpb]
    simp only [hscale, hna, hnb, Bool.false_eq_true, if_false]
    rw [htotal, decide_eq_false (Int.not_lt.mpr (Int.natCast_nonneg _)), Int.natAbs_natCast, fit?,
      min_eq_left hle]
    cases fitFrom _ scale scale <;> rfl

theorem is_of_fit {m scale : Nat} {f : Nat × Nat} (hscale : scale ≤ maxScale)
    (h : fitFrom m scale scale = some f) :
    (Decimal.mk false f.1 f.2).Is (valueOf f) ∧
      Near (2 ^ (-92 : Int)) (valueOf f) (valueOf (m, scale)) := by
  obtain ⟨hle, hkept, hnear⟩ := fitFrom_near le_rfl (.inl rfl) h
  exact ⟨⟨fun h => (nomatch h), hle, hkept.trans hscale, rfl⟩, hnear⟩

theorem add?_near (ha : a.Is p) (hb : b.Is q) (h : a.add? b = some d) :
    ∃ r, d.Is r ∧ Near (2 ^ (-92 : Int)) r (p + q) := by
  by_cases hpa : a.coefficient = 0
  · rw [add?, if_pos hpa] at h
    cases h
    have hp : p = 0 := by rw [← ha.value, hpa, Nat.cast_zero, zero_div]
    rw [hp, zero_add]
    exact ⟨q, hb, .refl (by positivity) hb.nonneg⟩
  by_cases hpb : b.coefficient = 0
  · rw [add?, if_neg hpa, if_pos hpb] at h
    cases h
    have hq : q = 0 := by rw [← hb.value, hpb, Nat.cast_zero, zero_div]
    rw [hq, add_zero]
    exact ⟨p, ha, .refl (by positivity) ha.nonneg⟩
  obtain ⟨m, scale, hscale, hvalue, hadd⟩ := add?_eq ha hb hpa hpb
  obtain ⟨f, hfit, rfl⟩ := Option.map_eq_some_iff.mp (hadd.symm.trans h)
  rw [← hvalue]
  exact ⟨_, is_of_fit hscale hfit⟩

theorem add?_isSome (ha : a.Is p) (hb : b.Is q) (h : p + q + 1 ≤ maxCoefficient) :
    ∃ d, a.add? b = some d := by
  by_cases hpa : a.coefficient = 0
  · exact ⟨b, by rw [add?, if_pos hpa]⟩
  by_cases hpb : b.coefficient = 0
  · exact ⟨a, by rw [add?, if_neg hpa, if_pos hpb]⟩
  obtain ⟨m, scale, -, hvalue, hadd⟩ := add?_eq ha hb hpa hpb
  obtain ⟨f, hfit⟩ := fitFrom_isSome (hvalue ▸ h) scale
  exact ⟨_, hadd.trans (by rw [hfit, Option.map_some])⟩

/-- The coefficient so far as a number. -/
def Quotient.value (q : Quotient) : ℚ :=
  q.coefficient / 10 ^ q.scale

/-- The developed quotient is a decimal that is near to the number. -/
structure Quotient.Ends (q : Quotient) (v : ℚ) : Prop where
  coefficient_le : q.coefficient ≤ maxCoefficient
  scale_nonneg : 0 ≤ q.scale
  scale_le : q.scale ≤ maxScale
  near : |q.value - v| ≤ 2 ^ (-92 : Int) * v + valueOf (1, maxScale)

/-- What remains behind the coefficient is `r / n` of its last place. -/
structure Quotient.Develops (q : Quotient) (r n : Nat) (v : ℚ) : Prop where
  coefficient_le : q.coefficient ≤ maxCoefficient
  scale_le : q.scale ≤ maxScale
  lt : r < n
  value : ((q.coefficient : ℚ) + r / n) / 10 ^ q.scale = v

theorem growth_le (q : Nat) (scale : Int) (limit : Nat) : growth q scale limit ≤ limit := by
  induction limit with
  | zero => exact le_rfl
  | succ limit ih =>
    rw [growth]
    split
    · exact le_rfl
    · exact ih.trans (Nat.le_succ limit)

theorem growth_fits {q : Nat} {scale : Int} {limit : Nat} (h : growth q scale limit ≠ 0) :
    growth q scale limit + scale ≤ maxScale ∧
      q * Nat.pow 10 (growth q scale limit) ≤ maxCoefficient := by
  induction limit with
  | zero => exact absurd rfl h
  | succ limit ih =>
    rw [growth] at h ⊢
    split
    · rename_i hfits
      exact_mod_cast hfits
    · rename_i hfull
      rw [if_neg hfull] at h
      exact ih h

theorem growth_eq_zero {q : Nat} {scale : Int} {limit : Nat} (h : growth q scale (limit + 1) = 0) :
    ¬ (1 + scale ≤ maxScale ∧ q * 10 ≤ maxCoefficient) := by
  induction limit with
  | zero =>
    rw [growth] at h
    split at h
    · cases h
    · rename_i hfull
      simpa using hfull
  | succ limit ih =>
    rw [growth] at h
    split at h
    · cases h
    · exact ih h

/-- Develops by `p` digits, or gives up the last of them. -/
def Quotient.extend (n steps r : Nat) (q : Quotient) (p : Nat) (inexact : Bool) : Option Quotient :=
  let grown := q.coefficient * Nat.pow 10 p
  if maxCoefficient < grown then none
  else
    let r := r * Nat.pow 10 p
    let q : Quotient := ⟨grown + r / n, q.scale + p, inexact⟩
    if maxCoefficient < q.coefficient then q.dropDigit? (r % n != 0)
    else develop n steps (r % n) q

theorem develop_succ (n steps r : Nat) (q : Quotient) :
    develop n (steps + 1) r q =
      if r = 0 then
        if 0 ≤ q.scale then some q else q.extend n steps r (min 9 (-q.scale).toNat) q.inexact
      else
        let p := growth q.coefficient q.scale 9
        if p < 9 ∧ p + q.scale < 0 then none
        else if p = 0 then
          let up := n < 2 * r || (2 * r == n && q.coefficient % 2 == 1)
          let q : Quotient := ⟨if up then q.coefficient + 1 else q.coefficient, q.scale, true⟩
          if maxCoefficient < q.coefficient then q.dropDigit? true else some q
        else q.extend n steps r p true :=
  rfl

theorem Quotient.ends_of_near {q : Quotient} {v c : ℚ} (hle : q.coefficient ≤ maxCoefficient)
    (hnonneg : 0 ≤ q.scale) (hscale : q.scale ≤ maxScale) (hv : c / 10 ^ q.scale = v)
    (hnear : |q.coefficient - c| ≤ 2 ^ (-92 : Int) * c) : q.Ends v := by
  refine ⟨hle, hnonneg, hscale, ?_⟩
  have hpart : Near (2 ^ (-92 : Int)) q.value v := hv ▸ Near.div_right hnear (by positivity)
  exact le_add_of_le_of_nonneg hpart (valueOf_nonneg _)

/-- At the last place there is, a unit is what the quotient may be off by. -/
theorem Quotient.ends_of_last {q : Quotient} {v c : ℚ} (hle : q.coefficient ≤ maxCoefficient)
    (hlast : q.scale = maxScale) (hc : 0 ≤ c) (hv : c / 10 ^ q.scale = v)
    (hnear : |q.coefficient - c| ≤ 1) : q.Ends v := by
  have hunit : (0 : ℚ) < 10 ^ q.scale := by positivity
  have hv₀ : 0 ≤ v := hv ▸ by positivity
  refine ⟨hle, by omega, hlast.le, le_add_of_nonneg_of_le (by positivity) ?_⟩
  rw [← hv, Quotient.value, ← sub_div, abs_div, abs_of_pos hunit]
  refine (div_le_div_of_nonneg_right hnear hunit.le).trans_eq ?_
  rw [hlast, zpow_natCast, valueOf, Nat.cast_one]

theorem Quotient.ends_of_dropDigit? {q q' : Quotient} {sticky : Bool} {v ρ : ℚ}
    (hfull : maxCoefficient < q.coefficient) (hle : q.coefficient ≤ maxCoefficient + 10 ^ 9)
    (hscale : q.scale ≤ maxScale) (hρ : -1 ≤ ρ) (hρ₁ : ρ ≤ 1)
    (hv : (q.coefficient + ρ) / 10 ^ q.scale = v) (h : q.dropDigit? sticky = some q') :
    q'.Ends v := by
  rw [dropDigit?] at h
  split at h
  · cases h
  rename_i hpositive
  cases h
  have hdigit : (q.coefficient : ℚ) =
      10 * (q.coefficient / 10 : Nat) + (q.coefficient % 10 : Nat) := by
    exact_mod_cast (Nat.div_add_mod q.coefficient 10).symm
  have hlt : ((q.coefficient % 10 : Nat) : ℚ) ≤ 9 := by
    exact_mod_cast Nat.le_of_lt_succ (Nat.mod_lt q.coefficient (by decide))
  have hnonneg : (0 : ℚ) ≤ (q.coefficient % 10 : Nat) := Nat.cast_nonneg _
  have hpart : 3 / 2 ≤ 2 ^ (-92 : Int) * ((q.coefficient + ρ) / 10) := by
    have hfull : (maxCoefficient : ℚ) ≤ q.coefficient := by exact_mod_cast hfull.le
    exact le_part (by linarith)
  refine ends_of_near (c := (q.coefficient + ρ) / 10) ?_ (by dsimp only; omega)
    (by dsimp only; omega) ?_ ?_
  · dsimp only
    rw [maxCoefficient_eq] at hle ⊢
    split <;> omega
  · rw [← hv, zpow_sub_one₀ (by norm_num)]
    field_simp
  · refine le_trans ?_ hpart
    dsimp only
    rw [abs_le]
    split
    · push_cast
      constructor <;> linarith
    · constructor <;> linarith

theorem Quotient.Develops.grown_value {q : Quotient} {r n : Nat} {v : ℚ} (h : q.Develops r n v)
    (p : Nat) :
    (((q.coefficient * 10 ^ p + r * 10 ^ p / n : Nat) : ℚ) + (r * 10 ^ p % n : Nat) / n) /
      10 ^ (q.scale + p) = v := by
  have hn₀ : (0 : ℚ) < n := by exact_mod_cast (Nat.zero_le r).trans_lt h.lt
  have hdiv : ((r * 10 ^ p : Nat) : ℚ) = n * (r * 10 ^ p / n : Nat) + (r * 10 ^ p % n : Nat) := by
    exact_mod_cast (Nat.div_add_mod (r * 10 ^ p) n).symm
  rw [← h.value, zpow_add₀ (by norm_num), zpow_natCast]
  push_cast at hdiv ⊢
  field_simp
  linarith

/-- An extension keeps the number, and it ends the quotient if the coefficient is full. -/
theorem Quotient.Develops.extend {q q' : Quotient} {r n steps p : Nat} {inexact : Bool} {v : ℚ}
    (h : q.Develops r n v) (hp : p ≤ 9) (hscale : q.scale + p ≤ maxScale)
    (hq' : q.extend n steps r p inexact = some q') :
    q'.Ends v ∨ ∃ q₁ : Quotient, q₁.Develops (r * 10 ^ p % n) n v ∧ q₁.scale = q.scale + p ∧
      develop n steps (r * 10 ^ p % n) q₁ = some q' := by
  have hn : 0 < n := (Nat.zero_le r).trans_lt h.lt
  have hn₀ : (0 : ℚ) < n := by exact_mod_cast hn
  have hmod := Nat.mod_lt (r * 10 ^ p) hn
  rw [Quotient.extend] at hq'
  simp only [Nat.pow_eq] at hq'
  split at hq'
  · cases hq'
  rename_i hgrown
  split at hq'
  · rename_i hfull
    refine .inl (ends_of_dropDigit? hfull ?_ hscale ?_ ?_ (h.grown_value p) hq')
    · have hpower : 10 ^ p ≤ 10 ^ 9 := Nat.pow_le_pow_right (by decide) hp
      have hdigits : r * 10 ^ p / n < 10 ^ p :=
        Nat.div_lt_of_lt_mul (Nat.mul_lt_mul_of_pos_right h.lt (Nat.pow_pos (by decide)))
      dsimp only
      omega
    · exact (by norm_num : (-1 : ℚ) ≤ 0).trans (by positivity)
    · exact (div_le_one hn₀).mpr (by exact_mod_cast hmod.le)
  · rename_i hfits
    exact .inr ⟨_, ⟨not_lt.mp hfits, hscale, hmod, h.grown_value p⟩, rfl, hq'⟩

theorem Quotient.Develops.ends_of_rounded {q q₁ q' : Quotient} {r n : Nat} {v : ℚ}
    (h : q.Develops r n v) (hnonneg : 0 ≤ q.scale)
    (hfull : ¬ (1 + q.scale ≤ maxScale ∧ q.coefficient * 10 ≤ maxCoefficient))
    (hq₁ : q₁.coefficient = q.coefficient ∨ q₁.coefficient = q.coefficient + 1)
    (hscale : q₁.scale = q.scale)
    (hq' : (if maxCoefficient < q₁.coefficient then q₁.dropDigit? true else some q₁) = some q') :
    q'.Ends v := by
  have hn₀ : (0 : ℚ) < n := by exact_mod_cast (Nat.zero_le r).trans_lt h.lt
  have hr : (r : ℚ) / n ≤ 1 := (div_le_one hn₀).mpr (by exact_mod_cast h.lt.le)
  have hr₀ : (0 : ℚ) ≤ r / n := by positivity
  have hle := h.coefficient_le
  have hvalue := h.value
  rw [← hscale] at hvalue
  have hnear : |(q₁.coefficient : ℚ) - (q.coefficient + r / n)| ≤ 1 := by
    rw [abs_le]
    obtain hsame | hup := hq₁
    · rw [hsame]
      constructor <;> linarith
    · rw [hup]
      push_cast
      constructor <;> linarith
  split at hq'
  · rename_i hlarge
    have hup : q₁.coefficient = q.coefficient + 1 := hq₁.resolve_left (by omega)
    refine ends_of_dropDigit? (ρ := r / n - 1) hlarge (by omega) (hscale ▸ h.scale_le) (by linarith)
      (by linarith) ?_ hq'
    rw [← hvalue, hup]
    push_cast
    ring_nf
  · rename_i hfits
    cases hq'
    by_cases hlast : 1 + q.scale ≤ maxScale
    · have hlarge : (maxCoefficient : ℚ) ≤ 10 * q.coefficient := by
        have := not_le.mp (mt (And.intro hlast) hfull)
        exact_mod_cast (by omega : maxCoefficient ≤ 10 * q.coefficient)
      have hpart := le_part (c := q.coefficient + r / n) (by linarith)
      exact ends_of_near (not_lt.mp hfits) (hscale ▸ hnonneg) (hscale ▸ h.scale_le) hvalue
        (hnear.trans (by linarith))
    · have hlast : q₁.scale = maxScale := by
        have := h.scale_le
        omega
      exact ends_of_last (not_lt.mp hfits) hlast (by positivity) hvalue hnear

theorem develop_ends {q q' : Quotient} {r n steps : Nat} {v : ℚ} (h : q.Develops r n v)
    (hsteps : maxScale - q.scale < steps) (hq' : develop n steps r q = some q') : q'.Ends v := by
  induction steps generalizing q r with
  | zero =>
    have := h.scale_le
    omega
  | succ steps ih =>
    have hn₀ : (0 : ℚ) < n := by exact_mod_cast (Nat.zero_le r).trans_lt h.lt
    have hextend {p : Nat} {inexact : Bool} (hp₀ : p ≠ 0) (hp : p ≤ 9)
        (hscale : q.scale + p ≤ maxScale) (hq' : q.extend n steps r p inexact = some q') :
        q'.Ends v := by
      obtain hends | ⟨q₁, hdevelops, hscale₁, hnext⟩ := h.extend hp hscale hq'
      · exact hends
      · exact ih hdevelops (by omega) hnext
    rw [develop_succ] at hq'
    split at hq'
    · rename_i hr
      split at hq'
      · rename_i hnonneg
        cases hq'
        refine Quotient.ends_of_near h.coefficient_le hnonneg h.scale_le h.value ?_
        rw [hr, Nat.cast_zero, zero_div, add_zero, sub_self, abs_zero]
        positivity
      · have := h.scale_le
        exact hextend (by omega) (Nat.min_le_left 9 _) (by omega) hq'
    · dsimp only at hq'
      split at hq'
      · cases hq'
      rename_i hnonneg
      split at hq'
      · rename_i hzero
        exact @Quotient.Develops.ends_of_rounded q ⟨_, q.scale, true⟩ q' r n v h (by omega)
          (growth_eq_zero hzero) (ite_eq_or_eq _ _ _).symm rfl hq'
      · rename_i hp₀
        exact hextend hp₀ (growth_le _ _ 9) (by have := (growth_fits hp₀).1; omega) hq'

/-- Zeros at the end of the coefficient stand for nothing. -/
theorem Quotient.Ends.dropZeros {q : Quotient} {v : ℚ} (h : q.Ends v) (bits k : Nat) :
    (q.dropZeros bits k).Ends v := by
  rw [Quotient.dropZeros]
  split
  · rename_i hzeros
    obtain ⟨-, hk, hzero⟩ := hzeros
    have hle := h.scale_le
    refine ⟨(Nat.div_le_self _ _).trans h.coefficient_le, by dsimp only; omega,
      by dsimp only; omega, ?_⟩
    have hvalue :
        Quotient.value ⟨q.coefficient / Nat.pow 10 k, q.scale - k, q.inexact⟩ = q.value := by
      rw [Nat.pow_eq] at hzero ⊢
      have hpower : ((10 ^ k : Nat) : ℚ) ≠ 0 := by positivity
      rw [Quotient.value, Quotient.value]
      dsimp only
      rw [Nat.cast_div (Nat.dvd_of_mod_eq_zero hzero) hpower, zpow_sub₀ (by norm_num), zpow_natCast]
      push_cast
      field_simp
    rw [hvalue]
    exact h.near
  · exact h

theorem Quotient.Ends.foldl (steps : List (Nat × Nat)) {q : Quotient} {v : ℚ} (h : q.Ends v) :
    (steps.foldl (fun q (bits, k) => q.dropZeros bits k) q).Ends v := by
  induction steps generalizing q with
  | nil => exact h
  | cons step steps ih => exact ih (h.dropZeros step.1 step.2)

theorem Quotient.Ends.strip {q : Quotient} {v : ℚ} (h : q.Ends v) : q.strip.Ends v := by
  rw [Quotient.strip]
  split
  · exact h.foldl _
  · exact h

theorem develops_start (ha : a.Is p) (hb : b.Is q) (hpb : b.coefficient ≠ 0) :
    Quotient.Develops ⟨a.coefficient / b.coefficient, a.scale - b.scale, false⟩
      (a.coefficient % b.coefficient) b.coefficient (p / q) := by
  have hb₀ : (0 : ℚ) < b.coefficient := by exact_mod_cast Nat.pos_of_ne_zero hpb
  refine ⟨(Nat.div_le_self _ _).trans ha.coefficient_le, ?_,
    Nat.mod_lt _ (Nat.pos_of_ne_zero hpb), ?_⟩
  · have := ha.scale_le
    dsimp only
    omega
  · have hdiv : (a.coefficient : ℚ) = b.coefficient * (a.coefficient / b.coefficient : Nat) +
        (a.coefficient % b.coefficient : Nat) := by
      exact_mod_cast (Nat.div_add_mod a.coefficient b.coefficient).symm
    have hquotient : ((a.coefficient / b.coefficient : Nat) : ℚ) +
        (a.coefficient % b.coefficient : Nat) / b.coefficient = a.coefficient / b.coefficient := by
      rw [hdiv]
      field_simp
    dsimp only
    rw [hquotient, ← ha.value, ← hb.value, zpow_sub₀ (by norm_num), zpow_natCast, zpow_natCast]
    field_simp

theorem div?_close (ha : a.Is p) (hb : b.Is q) (h : a.div? b = some d) :
    ∃ r, d.Is r ∧ Close (2 ^ (-92 : Int)) (valueOf (1, maxScale)) r (p / q) := by
  have hunit := valueOf_nonneg (1, maxScale)
  rw [div?] at h
  split at h
  · cases h
  rename_i hpb
  split at h
  · rename_i hpa
    cases h
    have hp : p = 0 := by rw [← ha.value, hpa, Nat.cast_zero, zero_div]
    refine ⟨0, is_zero, ?_⟩
    rw [hp, zero_div]
    exact ⟨by simpa using hunit, fun _ => rfl⟩
  rename_i hpa
  obtain ⟨q', hq', heq⟩ := Option.bind_eq_some_iff.mp h
  cases heq
  have hna : a.negative = false := Bool.eq_false_iff.mpr (mt ha.plain hpa)
  have hnb : b.negative = false := Bool.eq_false_iff.mpr (mt hb.plain hpb)
  have hfuel : (maxScale : Int) - (a.scale - b.scale) < (64 : Nat) := by
    have hscale := hb.scale_le
    rw [show maxScale = 28 from rfl] at hscale ⊢
    omega
  have hends := (develop_ends (develops_start ha hb hpb) hfuel hq').strip
  obtain ⟨scale, hscale⟩ := Int.eq_ofNat_of_zero_le hends.scale_nonneg
  have hle := hends.scale_le
  have hnear := hends.near
  rw [Quotient.value, hscale, zpow_natCast] at hnear
  rw [hscale, Int.toNat_natCast, hna, hnb]
  have hpositive : 0 < p / q := by
    have ha₀ : (0 : ℚ) < a.coefficient := by exact_mod_cast Nat.pos_of_ne_zero hpa
    have hb₀ : (0 : ℚ) < b.coefficient := by exact_mod_cast Nat.pos_of_ne_zero hpb
    rw [← ha.value, ← hb.value]
    positivity
  exact ⟨_, ⟨fun h => (nomatch h), hends.coefficient_le, by dsimp only; omega, rfl⟩,
    ⟨hnear, fun hzero => absurd hzero hpositive.ne'⟩⟩

theorem Quotient.dropDigit?_isSome {q : Quotient} (h : 1 ≤ q.scale) (sticky : Bool) :
    ∃ q', q.dropDigit? sticky = some q' :=
  ⟨_, if_neg (not_lt.mpr h)⟩

theorem Quotient.Develops.rounded_isSome {q q₁ : Quotient} {r n : Nat} {v : ℚ}
    (h : q.Develops r n v) (hr : r ≠ 0) (hnonneg : 0 ≤ q.scale) (hv : v ≤ maxCoefficient)
    (hq₁ : q₁.coefficient = q.coefficient ∨ q₁.coefficient = q.coefficient + 1)
    (hscale : q₁.scale = q.scale) :
    ∃ q', (if maxCoefficient < q₁.coefficient then q₁.dropDigit? true else some q₁) = some q' := by
  split
  · rename_i hfull
    have hlast : q.coefficient = maxCoefficient := by
      have := h.coefficient_le
      omega
    -- Without a place the number would be greater than the coefficient, which is the greatest.
    have hplaces : q.scale ≠ 0 := by
      intro hzero
      have hr₀ : (0 : ℚ) < r / n :=
        div_pos (by exact_mod_cast Nat.pos_of_ne_zero hr)
          (by exact_mod_cast (Nat.zero_le r).trans_lt h.lt)
      have hvalue := h.value
      rw [hzero, zpow_zero, div_one, hlast] at hvalue
      linarith
    exact Quotient.dropDigit?_isSome (by omega) true
  · exact ⟨_, rfl⟩

/-- A quotient that starts with decimal places has room for its digits. -/
theorem develop_isSome (steps : Nat) {q : Quotient} {r n : Nat} {v : ℚ} (h : q.Develops r n v)
    (hnonneg : 0 ≤ q.scale) (hv : v ≤ maxCoefficient) : ∃ q', develop n steps r q = some q' := by
  induction steps generalizing q r with
  | zero => exact ⟨q, rfl⟩
  | succ steps ih =>
    have hn : 0 < n := (Nat.zero_le r).trans_lt h.lt
    rw [develop_succ]
    split
    · exact ⟨q, rfl⟩
    rename_i hr
    dsimp only
    rw [if_neg (by omega)]
    split
    · exact @Quotient.Develops.rounded_isSome q ⟨_, q.scale, true⟩ r n v h hr hnonneg hv
        (ite_eq_or_eq _ _ _).symm rfl
    · rename_i hp
      obtain ⟨hscale, hgrown⟩ := growth_fits hp
      rw [Quotient.extend]
      dsimp only
      rw [if_neg (not_lt.mpr hgrown)]
      split
      · exact Quotient.dropDigit?_isSome (show 1 ≤ q.scale + _ by omega) _
      · rename_i hfits
        simp only [Nat.pow_eq] at hfits ⊢
        exact ih ⟨not_lt.mp hfits, by dsimp only; omega, Nat.mod_lt _ hn, h.grown_value _⟩
          (by dsimp only; omega)

theorem div?_isSome (ha : a.Is p) (hb : b.Is q) (hscale : b.scale = 0) (hq : 1 ≤ q) :
    ∃ d, a.div? b = some d := by
  have hpb : b.coefficient ≠ 0 := by
    intro hzero
    rw [← hb.value, hzero, Nat.cast_zero, zero_div] at hq
    exact absurd hq (by norm_num)
  by_cases hpa : a.coefficient = 0
  · exact ⟨zero, by rw [div?, if_neg hpb, if_pos hpa]⟩
  have hv : p / q ≤ maxCoefficient := by
    have hp : p ≤ a.coefficient :=
      ha.value ▸ div_le_self (Nat.cast_nonneg _) (one_le_pow₀ (by norm_num))
    exact ((div_le_self ha.nonneg hq).trans hp).trans (by exact_mod_cast ha.coefficient_le)
  obtain ⟨q', hq'⟩ := develop_isSome 64 (develops_start ha hb hpb)
    (by dsimp only; omega) hv
  rw [div?, if_neg hpb, if_neg hpa]
  exact ⟨_, Option.bind_eq_some_iff.mpr ⟨q', hq', rfl⟩⟩

end TableConsole.Number.Decimal
