import TableConsole.Number.Shortest
import TableConsole.Proofs.Number.Rounding

/-! # Packed floats

The bits of a float hold its sign, exponent and mantissa. What is unpacked from them is the binary
fraction that the float stands for, so floats with the same unpacked form are the same, and what is
packed from a fraction that the format represents is unpacked as it was.
-/

namespace TableConsole.Number

open Float.Model Float.Model.UnpackedFloat

set_option autoImplicit false

section Components

variable {spec : Format}

theorem toNat_unpackMantissa (b : BitVec spec.numBits) :
    (unpackMantissa b).toNat = b.toNat % 2 ^ spec.mantissaBitsWithoutImplicit := by
  have := spec.hm
  simp [unpackMantissa, Nat.sub_add_cancel this]

theorem toNat_unpackExponent (b : BitVec spec.numBits) :
    (unpackExponent b).toNat =
      b.toNat / 2 ^ spec.mantissaBitsWithoutImplicit % 2 ^ spec.exponentBits := by
  have := spec.he
  have hwidth : spec.mantissaBitsWithoutImplicit + spec.exponentBits - 1 -
    spec.mantissaBitsWithoutImplicit + 1 = spec.exponentBits := by omega
  simp [unpackExponent, hwidth, Nat.shiftRight_eq_div_pow]

theorem toNat_unpackSign (b : BitVec spec.numBits) :
    (unpackSign b).toNat =
      b.toNat / 2 ^ (spec.mantissaBitsWithoutImplicit + spec.exponentBits) % 2 := by
  delta unpackSign
  simp [Nat.shiftRight_eq_div_pow]

theorem unpackMantissa_eq_iff {b : BitVec spec.numBits}
    {m : BitVec spec.mantissaBitsWithoutImplicit} :
    unpackMantissa b = m ↔ b.toNat % 2 ^ spec.mantissaBitsWithoutImplicit = m.toNat := by
  rw [← BitVec.toNat_inj, toNat_unpackMantissa]

theorem unpackExponent_eq_iff {b : BitVec spec.numBits} {e : BitVec spec.exponentBits} :
    unpackExponent b = e ↔
      b.toNat / 2 ^ spec.mantissaBitsWithoutImplicit % 2 ^ spec.exponentBits = e.toNat := by
  rw [← BitVec.toNat_inj, toNat_unpackExponent]

theorem isNegative_unpackSign (b : BitVec 64) :
    (Sign.ofBitVec (@unpackSign .binary64 b) == .negative) = (b.toNat / 2 ^ 63 == 1) := by
  have hone : @unpackSign .binary64 b = 0#1 ↔ b.toNat / 2 ^ 63 = 0 := by
    have hsign := @toNat_unpackSign .binary64 b
    rw [← BitVec.toNat_inj, hsign]
    change b.toNat / 2 ^ 63 % 2 = 0 ↔ _
    omega
  unfold Sign.ofBitVec
  split
  · rename_i h
    rw [hone.mp h]
    rfl
  · rename_i h
    have h := mt hone.mpr h
    have hbit : b.toNat / 2 ^ 63 = 1 := by omega
    rw [hbit]
    rfl

theorem ofNat_ne {w n : Nat} {b : BitVec w} (hn : n < 2 ^ w) (h : n ≠ b.toNat) :
    BitVec.ofNat w n ≠ b := by
  rintro rfl
  exact h (Nat.mod_eq_of_lt hn).symm

theorem toNat_one_append {n : Nat} (m : BitVec n) : (1#1 ++ m).toNat = 2 ^ n + m.toNat := by
  rw [BitVec.toNat_append, ← Nat.shiftLeft_add_eq_or_of_lt m.isLt]
  simp [Nat.shiftLeft_eq]

end Components

def Binary.ofUnpacked? : UnpackedFloat → Option Binary
  | .finite s m e _ => some ⟨s == .negative, m, e⟩
  | .zero s => some ⟨s == .negative, 0, -1074⟩
  | .infinity _ | .notANumber => none

theorem Binary.ofUnpacked?_finite (s : Sign) (m : Nat) (e : Int) (hm : 0 < m) :
    Binary.ofUnpacked? (.finite s m e hm) = some ⟨s == .negative, m, e⟩ :=
  rfl

theorem Binary.ofUnpacked?_zero (s : Sign) :
    Binary.ofUnpacked? (.zero s) = some ⟨s == .negative, 0, -1074⟩ :=
  rfl

theorem Binary.ofFloat?_eq (x : Float) :
    Binary.ofFloat? x = Binary.ofUnpacked? x.toModel.unpack := by
  obtain ⟨⟨bits, hbits⟩⟩ := x
  have hmantissa := @toNat_unpackMantissa .binary64 bits.toBitVec
  have hexponent := @toNat_unpackExponent .binary64 bits.toBitVec
  have hnegative := isNegative_unpackSign bits.toBitVec
  rw [UInt64.toNat_toBitVec] at hmantissa hexponent hnegative
  have hfull : @unpackExponent .binary64 bits.toBitVec = -1#_ ↔
      bits.toNat / 2 ^ 52 % 2 ^ 11 = 2047 := unpackExponent_eq_iff
  have hempty : @unpackExponent .binary64 bits.toBitVec = 0#_ ↔
      bits.toNat / 2 ^ 52 % 2 ^ 11 = 0 := unpackExponent_eq_iff
  have hzero : @unpackMantissa .binary64 bits.toBitVec = 0#_ ↔ bits.toNat % 2 ^ 52 = 0 :=
    unpackMantissa_eq_iff
  have hbias : ((Format.binary64.exponentBias : Nat) : Int) = 1023 := rfl
  have hview : Binary.ofFloat? ⟨⟨bits, hbits⟩⟩ =
      if bits.toNat / 2 ^ 52 % 2 ^ 11 = 2047 then none
      else if bits.toNat / 2 ^ 52 % 2 ^ 11 = 0 then
        some ⟨bits.toNat / 2 ^ 63 == 1, bits.toNat % 2 ^ 52, -1074⟩
      else
        some ⟨bits.toNat / 2 ^ 63 == 1, 2 ^ 52 + bits.toNat % 2 ^ 52,
          (bits.toNat / 2 ^ 52 % 2 ^ 11 : Nat) - 1075⟩ := rfl
  rw [hview, Float.Model.unpack]
  delta UnpackedFloat.unpack
  dsimp only
  by_cases hfield : bits.toNat / 2 ^ 52 % 2 ^ 11 = 2047
  · rw [if_pos hfield, if_pos (hfull.mpr hfield)]
    split <;> rfl
  rw [if_neg hfield, if_neg (mt hfull.mp hfield)]
  by_cases hsubnormal : bits.toNat / 2 ^ 52 % 2 ^ 11 = 0
  · rw [if_pos hsubnormal, if_pos (hempty.mpr hsubnormal)]
    by_cases hfraction : @unpackMantissa .binary64 bits.toBitVec = 0#_
    · rw [dif_pos hfraction, ofUnpacked?_zero, hnegative, hzero.mp hfraction]
    · rw [dif_neg hfraction, ofUnpacked?_finite, hnegative, hmantissa, hexponent, hbias]
      rw [hsubnormal]
      rfl
  · rw [if_neg hsubnormal, if_neg (mt hempty.mp hsubnormal), ofUnpacked?_finite, hnegative,
      toNat_one_append, hmantissa, hexponent, hbias]
    congr 2

theorem Binary.toNat_toBits {x : Float} {b : Binary} (h : Binary.ofFloat? x = some b) :
    x.toBits.toNat = b.negative.toNat * 2 ^ 63 +
      if b.significand < 2 ^ 52 then b.significand
      else (b.exponent + 1075).toNat * 2 ^ 52 + (b.significand - 2 ^ 52) := by
  have hlt : x.toBits.toNat < 2 ^ 64 := x.toBits.toNat_lt
  simp only [Binary.ofFloat?, Nat.pow_eq] at h
  generalize x.toBits.toNat = bits at h hlt ⊢
  have hnegative : (bits / 2 ^ 63 == 1).toNat = bits / 2 ^ 63 := by
    have hbit : bits / 2 ^ 63 = 0 ∨ bits / 2 ^ 63 = 1 := by omega
    obtain hbit | hbit := hbit <;> rw [hbit] <;> rfl
  split at h
  · cases h
  · split at h <;> cases h <;> dsimp only <;> rw [hnegative]
    · rw [if_pos (Nat.mod_lt _ (Nat.two_pow_pos 52))]
      omega
    · rw [if_neg (by omega)]
      omega

theorem Binary.eq_of_ofFloat? {x y : Float} {b : Binary} (hx : Binary.ofFloat? x = some b)
    (hy : Binary.ofFloat? y = some b) : x = y :=
  eq_of_toBits_eq (UInt64.toNat_inj.mp ((toNat_toBits hx).trans (toNat_toBits hy).symm))

theorem toBitVec_of_isNaN {x : Float} (h : x.isNaN = true) :
    x.toModel.toBits.toBitVec = packedNaN .binary64 := by
  obtain ⟨⟨bits, hvalid⟩⟩ := x
  change (UnpackedFloat.unpack .binary64 bits.toBitVec).isNaN = true at h
  delta UnpackedFloat.unpack at h
  dsimp only at h
  by_cases hexponent : @unpackExponent .binary64 bits.toBitVec = -1#_
  · by_cases hmantissa : @unpackMantissa .binary64 bits.toBitVec = 0#_
    · rw [if_pos hexponent, if_pos hmantissa] at h
      cases h
    · exact hvalid.eq_packedNaN hexponent hmantissa
  · rw [if_neg hexponent] at h
    by_cases hempty : @unpackExponent .binary64 bits.toBitVec = 0#_
    · rw [if_pos hempty] at h
      by_cases hmantissa : @unpackMantissa .binary64 bits.toBitVec = 0#_
      · rw [dif_pos hmantissa] at h
        cases h
      · rw [dif_neg hmantissa] at h
        cases h
    · rw [if_neg hempty] at h
      cases h

/-- All missing numbers are one float. -/
theorem eq_nan_of_isNaN {x : Float} (h : x.isNaN = true) : x = nan := by
  have hnan : nan.isNaN = true := by decide +kernel
  have hbits := (toBitVec_of_isNaN h).trans (toBitVec_of_isNaN hnan).symm
  exact eq_of_toBits_eq (UInt64.toBitVec_inj.mp hbits)

theorem targetExponent_eq (total : Int) :
    Format.binary64.targetExponent total = max (total - 53) (-1074) :=
  rfl

/-- A mantissa and an exponent as a finite float has them. -/
structure Representable (m : Nat) (e : Int) : Prop where
  pos : 0 < m
  mantissa : m < 2 ^ 53
  low : -1074 ≤ e
  high : e ≤ 971
  normal : 2 ^ 52 ≤ m ∨ e = -1074

section Representable

variable {m : Nat} {e : Int}

theorem Representable.canonical (h : Representable m e) : Canonical .binary64 m e := by
  have hlow := h.low
  have hlog : m.log2 < 53 := (Nat.log2_lt h.pos.ne').mpr h.mantissa
  have hnormal : 52 ≤ m.log2 ∨ e = -1074 :=
    h.normal.imp_left (Nat.le_log2 h.pos.ne').mpr
  rw [Canonical, targetExponent_eq, totalExponent]
  omega

theorem representable_of_ofFloat? {x : Float} {b : Binary} (h : Binary.ofFloat? x = some b)
    (hb : b.significand ≠ 0) : Representable b.significand b.exponent := by
  simp only [Binary.ofFloat?, Nat.pow_eq] at h
  split at h
  · cases h
  · split at h
    · cases h
      exact ⟨Nat.pos_of_ne_zero hb, by dsimp only; omega, by dsimp only; omega,
        by dsimp only; omega, .inr rfl⟩
    · cases h
      exact ⟨Nat.pos_of_ne_zero hb, by dsimp only; omega, by dsimp only; omega,
        by dsimp only; omega, .inl (Nat.le_add_right _ _)⟩

theorem ofBitVec_unpackSign_packComponents (s : Sign) (e : BitVec 11) (m : BitVec 52) :
    Sign.ofBitVec (unpackSign (packComponents .binary64 s e m)) = s := by
  delta packComponents unpackSign
  rw [BitVec.extractLsb, BitVec.extractLsb'_append_eq_of_le (by decide),
    BitVec.extractLsb'_append_eq_of_le (by decide)]
  cases s <;> rfl

theorem unpack_normal {b : BitVec Format.binary64.numBits} {s : Sign} {hm : 0 < m}
    (hsign : Sign.ofBitVec (unpackSign b) = s) (hfull : unpackExponent b ≠ -1#_)
    (hempty : unpackExponent b ≠ 0#_) (hmantissa : (1#1 ++ unpackMantissa b).toNat = m)
    (hexponent : ((unpackExponent b).toNat : Int) - 1075 = e) :
    UnpackedFloat.unpack .binary64 b = .finite s m e hm := by
  subst hsign hmantissa hexponent
  exact (if_neg hfull).trans (if_neg hempty)

theorem unpack_subnormal {b : BitVec Format.binary64.numBits} {s : Sign} {hm : 0 < m}
    (hsign : Sign.ofBitVec (unpackSign b) = s) (hempty : unpackExponent b = 0#_)
    (hmantissa : (unpackMantissa b).toNat = m)
    (hexponent : ((unpackExponent b).toNat : Int) - 1075 + 1 = e) :
    UnpackedFloat.unpack .binary64 b = .finite s m e hm := by
  subst hsign hmantissa hexponent
  have hfull : unpackExponent b ≠ -1#_ := by
    rw [hempty]
    decide
  have hzero : unpackMantissa b ≠ 0#_ := by
    intro hzero
    rw [hzero] at hm
    exact absurd hm (by decide)
  refine (if_neg hfull).trans ((if_pos hempty).trans ?_)
  exact dif_neg hzero

theorem unpack_pack (s : Sign) (h : Representable m e) :
    (Float.Model.pack (.finite s m e h.pos)).unpack = .finite s m e h.pos := by
  obtain ⟨hpos, hmantissa, hlow, hhigh, hnormal⟩ := h
  have hbias : ((Format.binary64.exponentBias : Nat) : Int) = 1023 := rfl
  have hwidth : ((Format.binary64.mantissaBitsWithoutImplicit : Nat) : Int) = 52 := rfl
  obtain ⟨field, hfield⟩ := Int.eq_ofNat_of_zero_le (show 0 ≤ e + 1023 + 52 by omega)
  have hlt : field < 2047 := by omega
  have hpack : UnpackedFloat.pack .binary64 (.finite s m e hpos) =
      if m.log2 + 1 = 53 then
        packComponents .binary64 s (BitVec.ofNat 11 field) (BitVec.ofNat 52 m)
      else packComponents .binary64 s 0#11 (BitVec.ofNat 52 m) := by
    have htoNat : (e + Format.binary64.exponentBias +
        Format.binary64.mantissaBitsWithoutImplicit).toNat = field := by
      rw [hbias, hwidth, hfield, Int.toNat_natCast]
    delta UnpackedFloat.pack
    dsimp only
    rw [htoNat]
    exact if_neg (by change ¬ 2048 ≤ field + 1; omega)
  change UnpackedFloat.unpack .binary64 (UnpackedFloat.pack .binary64 _) = _
  rw [hpack]
  by_cases hlog : m.log2 + 1 = 53
  · have hlarge : 2 ^ 52 ≤ m := (Nat.le_log2 hpos.ne').mp (by omega)
    have hpositive : field ≠ 0 := by omega
    rw [if_pos hlog]
    refine unpack_normal (ofBitVec_unpackSign_packComponents _ _ _) ?_ ?_ ?_ ?_
    · rw [unpackExponent_packComponents]
      exact ofNat_ne (by omega) hlt.ne
    · rw [unpackExponent_packComponents]
      exact ofNat_ne (by omega) hpositive
    · rw [unpackMantissa_packComponents, toNat_one_append, BitVec.toNat_ofNat]
      omega
    · rw [unpackExponent_packComponents, BitVec.toNat_ofNat]
      change ((field % 2 ^ 11 : Nat) : Int) - 1075 = e
      omega
  · have hsmall : m < 2 ^ 52 := by
      have hlog53 : m.log2 < 53 := (Nat.log2_lt hpos.ne').mpr hmantissa
      exact (Nat.log2_lt hpos.ne').mp (by omega)
    obtain rfl : e = -1074 := hnormal.resolve_left (by omega)
    rw [if_neg hlog]
    refine unpack_subnormal (ofBitVec_unpackSign_packComponents _ _ _)
      unpackExponent_packComponents ?_ ?_
    · rw [unpackMantissa_packComponents, BitVec.toNat_ofNat]
      exact Nat.mod_eq_of_lt hsmall
    · rw [unpackExponent_packComponents]
      rfl

end Representable

/-- The float is the positive fraction, in the form that the format asks for. -/
structure Represents (x : Float) (m : Nat) (e : Int) : Prop where
  representable : Representable m e
  unpack : x.toModel.unpack = .finite .positive m e representable.pos

section Represents

variable {x y : Float} {m : Nat} {e : Int}

theorem represents_pack (h : Representable m e) :
    Represents (.ofModel (.pack (.finite .positive m e h.pos))) m e :=
  ⟨h, unpack_pack .positive h⟩

theorem Represents.ofFloat? (h : Represents x m e) : Binary.ofFloat? x = some ⟨false, m, e⟩ := by
  rw [Binary.ofFloat?_eq, h.unpack]
  rfl

theorem Represents.eq (hx : Represents x m e) (hy : Represents y m e) : x = y :=
  Binary.eq_of_ofFloat? hx.ofFloat? hy.ofFloat?

theorem represents_of_ofFloat? {b : Binary} (h : Binary.ofFloat? x = some b)
    (hsign : b.negative = false) (hb : b.significand ≠ 0) :
    Represents x b.significand b.exponent := by
  refine ⟨representable_of_ofFloat? h hb, ?_⟩
  rw [Binary.ofFloat?_eq] at h
  generalize x.toModel.unpack = u at h
  cases u with
  | infinity | notANumber => cases h
  | zero s =>
    cases h
    exact absurd rfl hb
  | finite s m e hm =>
    cases h
    cases s with
    | negative => cases hsign
    | positive => rfl

theorem Represents.abs (h : Represents x m e) : x.abs = x := by
  refine Represents.eq ?_ h
  have hpack := represents_pack h.representable
  rwa [Float.abs, Float.Model.abs, h.unpack]

end Represents

end TableConsole.Number
