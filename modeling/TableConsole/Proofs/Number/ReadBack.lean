import TableConsole.Proofs.Number.Packing
import TableConsole.Number.Positional

/-! # Reading written numbers back

A decimal that equals a float is read as the float: the reading is one multiplication or division,
and nothing is lost in it. The shortest digits of a float read back because the search tries them,
and the exact expansion reads back because it is exact. So the plain text of a float reads as the
float.
-/

namespace TableConsole.Number

open Float.Model Float.Model.UnpackedFloat

set_option autoImplicit false

section Operations

variable {x y : Float} {m m₁ m₂ : Nat} {e e₁ e₂ : Int}

theorem Represents.mul (hx : Represents x m₁ e₁) (hy : Represents y m₂ e₂) (h : Representable m e)
    (hvalue : binaryValue m₁ e₁ * binaryValue m₂ e₂ = binaryValue m e) (he : e₁ + e₂ ≤ e) :
    Represents (x * y) m e := by
  have hmul := mul_exact .positive .positive hx.representable.pos hy.representable.pos h.pos hvalue
    h.canonical he
  have hpack := represents_pack h
  change Represents (.ofModel (.pack (UnpackedFloat.mul .binary64 _ _))) m e
  rwa [hx.unpack, hy.unpack, hmul]

theorem Represents.div (hx : Represents x m₁ e₁) (hy : Represents y m₂ e₂) (h : Representable m e)
    (hvalue : binaryValue m₁ e₁ = binaryValue m e * binaryValue m₂ e₂) :
    Represents (x / y) m e := by
  have hdiv := div_exact .positive .positive hx.representable.pos hy.representable.pos h.pos hvalue
    h.canonical
  have hpack := represents_pack h
  change Represents (.ofModel (.pack (UnpackedFloat.div .binary64 _ _))) m e
  rwa [hx.unpack, hy.unpack, hdiv]

theorem represents_toFloat {n : Nat} (hn : 0 < n) (hlt : n < 2 ^ 53) :
    ∃ m e, Represents n.toUInt64.toFloat m e ∧ binaryValue m e = n ∧ e ≤ 0 := by
  have hlog : n.log2 < 53 := (Nat.log2_lt hn.ne').mpr hlt
  have hpower : 2 ^ 52 = 2 ^ n.log2 * 2 ^ (52 - n.log2) := by
    rw [← Nat.pow_add]
    congr 1
    omega
  have hpos : 0 < 2 ^ (52 - n.log2) := Nat.two_pow_pos _
  have hlow : 2 ^ n.log2 ≤ n := Nat.log2_self_le hn.ne'
  have hhigh : n < 2 ^ (n.log2 + 1) := Nat.lt_log2_self
  have h : Representable (n * 2 ^ (52 - n.log2)) (n.log2 - 52) := by
    refine ⟨Nat.mul_pos hn hpos, ?_, by omega, by omega, .inl ?_⟩
    · calc n * 2 ^ (52 - n.log2) < 2 ^ (n.log2 + 1) * 2 ^ (52 - n.log2) :=
            Nat.mul_lt_mul_of_pos_right hhigh hpos
        _ = 2 ^ 53 := by rw [Nat.pow_succ, Nat.mul_right_comm, ← hpower, ← Nat.pow_succ]
    · rw [hpower]
      exact Nat.mul_le_mul_right _ hlow
  have hvalue : binaryValue n 0 = binaryValue (n * 2 ^ (52 - n.log2)) (n.log2 - 52) := by
    rw [← binaryValue_shift n 0 (52 - n.log2)]
    congr 1
    omega
  refine ⟨_, _, ?_, hvalue.symm.trans (by simp [binaryValue]), (by omega : (n.log2 : Int) - 52 ≤ 0)⟩
  have hround := round_exact .positive hn h.pos hvalue h.canonical
  have hbits : n.toUInt64.toNat = n := by
    rw [Nat.toUInt64, UInt64.toNat_ofNat']
    omega
  have hpack := represents_pack h
  have hcompare : compare (n : Int) 0 = .gt := Int.compare_eq_gt.mpr (by omega)
  rw [UInt64.toFloat, Float.Model.ofUInt64, UnpackedFloat.ofUInt64, UnpackedFloat.ofNat,
    UnpackedFloat.ofInt, UnpackedFloat.normalize, hbits, hcompare]
  simp only [Int.toNat_natCast]
  rwa [hround]

end Operations

/-- The float is positive, and equal to the natural number. -/
def isPower (n : Nat) (x : Float) : Bool :=
  match Binary.ofFloat? x with
  | some b => !b.negative && b.significand != 0 && b.numerator == n * b.denominator
  | none => false

theorem Binary.value_mul_denominator (b : Binary) :
    binaryValue b.significand b.exponent * b.denominator = b.numerator := by
  have hpower : (2 : ℚ) ^ b.exponent = 2 ^ b.exponent.toNat / 2 ^ (-b.exponent).toNat := by
    rw [← zpow_natCast, ← zpow_natCast, ← zpow_sub₀ (by norm_num)]
    congr 1
    omega
  rw [binaryValue, hpower, Binary.denominator, Binary.numerator, Binary.unit, Nat.pow_eq,
    Nat.pow_eq]
  push_cast
  field_simp

theorem represents_of_isPower {n : Nat} {x : Float} (h : isPower n x = true) :
    ∃ m e, Represents x m e ∧ binaryValue m e = n := by
  unfold isPower at h
  split at h
  · rename_i b hb
    simp only [Bool.and_eq_true, Bool.not_eq_true', bne_iff_ne, beq_iff_eq] at h
    obtain ⟨⟨hsign, hsignificand⟩, hvalue⟩ := h
    refine ⟨_, _, represents_of_ofFloat? hb hsign hsignificand, ?_⟩
    have hpos : (0 : ℚ) < b.denominator := by
      rw [Binary.denominator, Nat.pow_eq]
      positivity
    have hmul := b.value_mul_denominator
    rw [hvalue] at hmul
    push_cast at hmul
    exact mul_right_cancel₀ hpos.ne' hmul
  · cases h

theorem isPower_powersOfTen : ∀ i : Fin Float.exactlyRepresentablePowersOfTen.size,
    isPower (10 ^ i.val) Float.exactlyRepresentablePowersOfTen[i] = true := by
  decide +kernel

theorem represents_powerOfTen {k : Nat} (hk : k < Float.exactlyRepresentablePowersOfTen.size) :
    ∃ m e, Represents Float.exactlyRepresentablePowersOfTen[k] m e ∧
      binaryValue m e = (10 ^ k : Nat) :=
  represents_of_isPower (isPower_powersOfTen ⟨k, hk⟩)

section Decimals

variable {m : Nat} {e : Int}

theorem Representable.exponent_le_of_lt (h : Representable m e) {k : Int} (hk : -1021 ≤ k)
    (hvalue : binaryValue m e < 2 ^ k) : e ≤ k - 53 := by
  have htotal := (binaryValue_lt_iff h.pos k).mp hvalue
  have htarget : e ≤ Format.binary64.targetExponent k :=
    h.canonical.trans_le (targetExponent_mono htotal)
  rw [targetExponent_eq] at htarget
  omega

theorem Representable.exponent_ge_of_le (h : Representable m e) {k : Int}
    (hvalue : 2 ^ k ≤ binaryValue m e) : k - 52 ≤ e := by
  have htotal := mt (binaryValue_lt_iff h.pos k).mpr hvalue.not_gt
  have hcanonical := h.canonical
  rw [Canonical, targetExponent_eq] at hcanonical
  omega

/-- With more than 53 bits a natural number is rounded from its bits with zeros behind them. -/
theorem ofScientific_natural {n : Nat} (hn : 0 < n) (h : Representable m e)
    (hvalue : (n : ℚ) = binaryValue m e) (he : -53 ≤ e) :
    UnpackedFloat.ofScientific .binary64 n 0 = .finite .positive m e h.pos := by
  have hshift : 0 < n <<< 53 := Nat.shiftLeft_pos_iff.mpr hn
  have hscaled : binaryValue (n <<< 53) (-53) * binaryValue (10 ^ 0) 0 = binaryValue m e := by
    have hn₁ : binaryValue (n <<< 53) (-53) = n := by
      rw [Nat.shiftLeft_eq]
      exact (binaryValue_shift n 0 53).trans (by simp [binaryValue])
    rw [hn₁, ← hvalue]
    simp [binaryValue]
  have hsafe : ¬ (0 : Int) < -((2 ^ Format.binary64.exponentBits : Int) + n.log2) := by
    change ¬ (0 : Int) < -(2048 + n.log2)
    omega
  rw [UnpackedFloat.ofScientific, dif_neg hn.ne', if_neg (by decide), if_neg hsafe, if_pos le_rfl]
  exact mul_exact .positive .positive hshift Nat.one_pos h.pos hscaled h.canonical he

theorem ofScientific_fraction {n k : Nat} (hn : 0 < n) (hk : 0 < k) (hlow : k ≤ 2048)
    (h : Representable m e) (hvalue : (n : ℚ) = binaryValue m e * (10 ^ k : Nat)) :
    UnpackedFloat.ofScientific .binary64 n (Int.negOfNat k) = .finite .positive m e h.pos := by
  have hneg : Int.negOfNat k = -(k : Int) := Int.negOfNat_eq
  have hplaces : (-Int.negOfNat k).toNat = k := by rw [hneg, Int.neg_neg, Int.toNat_natCast]
  have hscaled :
      binaryValue n 0 = binaryValue m e * binaryValue (10 ^ (-Int.negOfNat k).toNat) 0 := by
    rw [hplaces]
    simpa [binaryValue] using hvalue
  have hsafe : ¬ Int.negOfNat k < -((2 ^ Format.binary64.exponentBits : Int) + n.log2) := by
    rw [hneg]
    change ¬ -(k : Int) < -(2048 + n.log2)
    omega
  have hfits : ¬ Int.negOfNat k > (2 ^ Format.binary64.exponentBits : Int) := by
    rw [hneg]
    change ¬ -(k : Int) > 2048
    omega
  rw [UnpackedFloat.ofScientific, dif_neg hn.ne', if_neg hfits, if_neg hsafe, if_neg (by omega)]
  exact div_exact .positive .positive hn (Nat.pow_pos (by decide)) h.pos hscaled h.canonical

theorem represents_natural {n : Nat} (h : Representable m e) (hvalue : (n : ℚ) = binaryValue m e) :
    Represents (Float.ofScientific n false 0) m e := by
  have hn : 0 < n := by
    have := hvalue ▸ binaryValue_pos h.pos
    exact_mod_cast this
  have he : -52 ≤ e := by
    have hone : (2 : ℚ) ^ (0 : Int) ≤ binaryValue m e := by
      rw [← hvalue, zpow_zero]
      exact_mod_cast hn
    have := h.exponent_ge_of_le hone
    omega
  rw [Float.ofScientific]
  split
  · rename_i hfast
    obtain ⟨m₁, e₁, hnatural, hn₁, he₁⟩ := represents_toFloat hn hfast.1
    obtain ⟨m₂, e₂, hpower, hone⟩ := represents_powerOfTen (k := 0) (by decide)
    have he₂ := hpower.representable.exponent_le_of_lt (k := 1) (by decide) (by rw [hone]; norm_num)
    refine hnatural.mul hpower h ?_ (by omega)
    rw [hone, hn₁, ← hvalue]
    norm_num
  · have hpack := represents_pack h
    change Represents (.ofModel (.pack (UnpackedFloat.ofScientific .binary64 n 0))) m e
    rwa [ofScientific_natural hn h hvalue (by omega)]

theorem represents_fraction {n k : Nat} (h : Representable m e) (hk : 0 < k) (hlow : k ≤ 2048)
    (hvalue : (n : ℚ) = binaryValue m e * (10 ^ k : Nat)) :
    Represents (Float.ofScientific n true k) m e := by
  have hn : 0 < n := by
    have hten : 0 < 10 ^ k := Nat.pow_pos (by decide)
    have hpos := mul_pos (binaryValue_pos (e := e) h.pos) (Nat.cast_pos.mpr hten)
    rw [← hvalue] at hpos
    exact_mod_cast hpos
  rw [Float.ofScientific]
  split
  · rename_i hfast
    obtain ⟨m₁, e₁, hnatural, hn₁, -⟩ := represents_toFloat hn hfast.1
    obtain ⟨m₂, e₂, hpower, hten⟩ := represents_powerOfTen (k := k) (Nat.lt_succ_of_le hfast.2)
    refine hnatural.div hpower h ?_
    rw [hten, hn₁, hvalue]
  · have hpack := represents_pack h
    change
      Represents (.ofModel (.pack (UnpackedFloat.ofScientific .binary64 n (Int.negOfNat k)))) m e
    rwa [ofScientific_fraction hn hk hlow h hvalue]

theorem Digits.represents {d : Digits} (h : Representable m e)
    (hvalue : (d.coefficient : ℚ) * 10 ^ d.exponent = binaryValue m e) (hlow : -2048 ≤ d.exponent) :
    Represents d.toFloat m e := by
  rw [Digits.toFloat]
  split
  · rename_i hexponent
    obtain ⟨k, hk⟩ := Int.eq_ofNat_of_zero_le hexponent
    refine represents_natural h ?_
    rw [← hvalue, hk, Int.toNat_natCast, Nat.pow_eq, zpow_natCast]
    push_cast
    rfl
  · rename_i hexponent
    obtain ⟨k, hk⟩ := Int.eq_ofNat_of_zero_le (show 0 ≤ -d.exponent by omega)
    have hk' : d.exponent = -(k : Int) := by omega
    rw [hk, Int.toNat_natCast]
    refine represents_fraction h (by omega) (by omega) ?_
    rw [← hvalue, hk', zpow_neg, zpow_natCast]
    push_cast
    field_simp

end Decimals

theorem Binary.digits_value (b : Binary) :
    (b.digits.coefficient : ℚ) * 10 ^ b.digits.exponent =
      binaryValue b.significand b.exponent := by
  rw [Binary.digits, Binary.unit, binaryValue, Nat.pow_eq, Nat.pow_eq]
  dsimp only
  by_cases hexponent : 0 ≤ b.exponent
  · obtain ⟨k, hk⟩ := Int.eq_ofNat_of_zero_le hexponent
    rw [hk, Int.min_eq_right (by omega), Int.toNat_natCast, Int.toNat_neg_natCast, zpow_natCast]
    push_cast
    ring
  · obtain ⟨k, hk⟩ := Int.eq_ofNat_of_zero_le (show 0 ≤ -b.exponent by omega)
    have hk' : b.exponent = -(k : Int) := by omega
    have hten : (10 : ℚ) ^ k = 2 ^ k * 5 ^ k := by rw [← mul_pow]; norm_num
    rw [hk', Int.min_eq_left (by omega), Int.neg_neg, Int.toNat_natCast, Int.toNat_neg_natCast,
      zpow_neg, zpow_neg, zpow_natCast, zpow_natCast, hten]
    push_cast
    field_simp

theorem shortest_toFloat {x : Float} {b : Binary} (h : Represents x b.significand b.exponent)
    (tie : Tie) : (shortest tie b x).toFloat = x := by
  rw [shortest]
  cases hsearch : searchShortest tie b x with
  | some d => exact toFloat_of_searchShortest hsearch
  | none =>
    have hlow : -2048 ≤ b.digits.exponent := by
      have := h.representable.low
      simp only [Binary.digits]
      omega
    exact (Digits.represents h.representable b.digits_value hlow).eq h

def pointed : List Char → List Char
  | [] => []
  | c :: cs => '.' :: c :: cs

theorem isDigit_of_mem_digits {n : Nat} {c : Char} (h : c ∈ Nat.toDigits 10 n) : c.isDigit = true :=
  Nat.isDigit_of_mem_toDigits (by decide) (by decide) h

/-- The digits with zeros in front, cut where the point stands. -/
theorem Digits.exists_pointed {d : Digits} {whole fraction : List Char} {zeros : Nat}
    (hdigits : whole ++ fraction = List.replicate zeros '0' ++ Nat.toDigits 10 d.coefficient)
    (hwhole : whole ≠ []) (hexponent : d.exponent < 0)
    (hlength : fraction.length = (-d.exponent).toNat) :
    whole ++ '.' :: fraction = whole ++ pointed fraction ∧ whole ≠ [] ∧
      (∀ c ∈ whole ++ fraction, c.isDigit = true) ∧ ofPositional whole fraction = d.toFloat := by
  refine ⟨?_, hwhole, ?_, ?_⟩
  · cases fraction with
    | nil =>
      rw [List.length_nil] at hlength
      omega
    | cons c cs => rfl
  · rw [hdigits]
    refine List.forall_mem_append.mpr ⟨?_, fun c => isDigit_of_mem_digits⟩
    intro c hc
    rw [List.eq_of_mem_replicate hc]
    rfl
  · have hplaces : -(fraction.length : Int) = d.exponent := by omega
    rw [ofPositional, hdigits, hplaces, Nat.ofDigitChars_append, Nat.ofDigitChars_replicate_zero,
      Nat.mul_zero, Nat.ofDigitChars_ten_toDigits]

theorem Digits.exists_positional (d : Digits) :
    ∃ whole fraction, d.positional false = whole ++ pointed fraction ∧ whole ≠ [] ∧
      (∀ c ∈ whole ++ fraction, c.isDigit = true) ∧ ofPositional whole fraction = d.toFloat := by
  rw [Digits.positional]
  split
  · rename_i hexponent
    refine ⟨_, [], rfl, Nat.toDigits_ne_nil, ?_, ofPositional_whole d hexponent⟩
    rw [List.append_nil]
    exact fun c => isDigit_of_mem_digits
  · rename_i hexponent
    have hexponent : d.exponent < 0 := Int.not_le.mp hexponent
    dsimp only
    split
    · rename_i hplaces
      refine ⟨_, _, @exists_pointed d _ _ 0 (List.take_append_drop _ _) ?_ hexponent ?_⟩
      · rw [Ne, List.take_eq_nil_iff]
        have := Nat.toDigits_ne_nil (n := d.coefficient) (b := 10)
        grind
      · rw [List.length_drop]
        omega
    · rename_i hplaces
      generalize hzeros : (-d.exponent).toNat - (Nat.toDigits 10 d.coefficient).length = zeros
      have hlength : (List.replicate zeros '0' ++ Nat.toDigits 10 d.coefficient).length =
          (-d.exponent).toNat := by
        rw [List.length_append, List.length_replicate]
        omega
      have hpointed := @exists_pointed d ['0'] _ (zeros + 1) rfl (List.cons_ne_nil _ _) hexponent
        hlength
      rw [List.append_assoc]
      exact ⟨['0'], _, hpointed⟩

/-- The plain text of a float without a sign reads as the float. -/
theorem exists_plain {x : Float} {b : Binary} (hx : Binary.ofFloat? x = some b)
    (hsign : b.negative = false) :
    ∃ whole fraction, plain? x = some (whole ++ pointed fraction) ∧ whole ≠ [] ∧
      (∀ c ∈ whole ++ fraction, c.isDigit = true) ∧ ofPositional whole fraction = x := by
  by_cases hb : b.significand = 0
  · refine ⟨['0'], [], ?_, List.cons_ne_nil _ _, by simp, ?_⟩
    · simp [plain?, Layout.write?, hx, hsign, hb, Layout.writeDigits, Layout.isPositional,
        Layout.plain, Digits.positional, pointed]
    · have hbits := Binary.toNat_toBits hx
      rw [hsign, hb] at hbits
      have hzero : (ofPositional ['0'] []).toBits.toNat = 0 := by decide +kernel
      exact eq_of_toBits_eq (UInt64.toNat_inj.mp (hzero.trans hbits.symm))
  · have hrepresents := represents_of_ofFloat? hx hsign hb
    obtain ⟨whole, fraction, htext, hwhole, hdigits, hread⟩ :=
      (shortest Layout.plain.tie b x).exists_positional
    refine ⟨whole, fraction, ?_, hwhole, hdigits, hread.trans (shortest_toFloat hrepresents _)⟩
    simpa [plain?, Layout.write?, hx, hsign, hb, hrepresents.abs, Layout.writeDigits,
      Layout.isPositional, Layout.plain] using htext

end TableConsole.Number
