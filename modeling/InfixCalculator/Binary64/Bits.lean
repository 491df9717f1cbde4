import InfixCalculator.Binary64.Basic

/-!
# Floats and their patterns

A `Float` and its sign and pattern determine each other, except that all NaNs are one value.

* `pack_unpack`: taking a valid bit vector apart and putting it together again changes nothing.
* `ofBits_toBits`, `toBits_ofBits`: the same for floats and their bits.
* `toFloat_isNegative_pattern`: a float is made of its sign and its pattern.
* `isNegative_toFloat`, `pattern_toFloat`: a sign and a pattern that is no NaN come back from the
  float made of them.
* `pattern_le_or_eq`: there is only one pattern of a NaN.
-/

namespace InfixCalculator.Binary64

open Float.Model Float.Model.UnpackedFloat

/-! ## Bit vectors -/

/-- The sign, the exponent field and the fraction of a bit vector make it up. -/
theorem packComponents_unpack (b : BitVec 64) :
    packComponents Format.binary64 (Sign.ofBitVec (@unpackSign Format.binary64 b))
      (@unpackExponent Format.binary64 b) (@unpackMantissa Format.binary64 b) = b := by
  have hsign : (Sign.ofBitVec (@unpackSign Format.binary64 b)).toBitVec
      = @unpackSign Format.binary64 b := by
    generalize @unpackSign Format.binary64 b = s
    revert s
    decide
  unfold packComponents
  rw [hsign]
  apply BitVec.eq_of_getLsbD_eq
  intro i hi
  delta unpackMantissa unpackExponent unpackSign
  simp only [BitVec.getLsbD_append, BitVec.getLsbD_cast, BitVec.getLsbD_extractLsb]
  -- a bit of the fraction, of the exponent field, or the sign bit
  by_cases hfraction : i < 52
  · simp [hfraction]
  · by_cases hexponent : i - 52 < 11
    · simp [hfraction, hexponent]
      rw [show 52 + (i - 52) = i by omega]
    · have hsign : i = 63 := by
        change i < 64 at hi
        omega
      subst hsign
      simp
      rfl

/-- A finite value without the leading bit is packed with an exponent field of zero. -/
theorem pack_subnormal (s : Sign) (m : BitVec 52) {e : Int} (he : e = -1074) (h : 0 < m.toNat) :
    UnpackedFloat.pack Format.binary64 (.finite s m.toNat e h) =
      packComponents Format.binary64 s 0 m := by
  subst he
  have hlt : m.toNat < 2 ^ 52 := m.isLt
  have hlog : m.toNat.log2 < 52 := (Nat.log2_lt (by omega)).2 hlt
  unfold UnpackedFloat.pack
  dsimp only
  have hshort : ¬ m.toNat.log2 + 1 = Format.binary64.mantissaBits := by
    rw [show Format.binary64.mantissaBits = 53 from rfl]
    omega
  rw [if_neg (by decide), if_neg hshort]
  rw [BitVec.ofNat_toNat, BitVec.setWidth_eq]
  rfl

theorem toNat_leading_append (m : BitVec 52) : (1#1 ++ m).toNat = leadingBit + m.toNat := by
  rw [BitVec.toNat_append, ← Nat.shiftLeft_add_eq_or_of_lt m.isLt]
  simp [leadingBit]

/-- A finite value with the leading bit is packed without it. -/
theorem pack_normal (s : Sign) (e : BitVec 11) (m : BitVec 52) (he : e ≠ -1#_)
    (h : 0 < (1#1 ++ m).toNat) :
    UnpackedFloat.pack Format.binary64 (.finite s (1#1 ++ m).toNat ((e.toNat : Int) - 1075) h) =
      packComponents Format.binary64 s e m := by
  have hlt : m.toNat < 2 ^ 52 := m.isLt
  have helt : e.toNat < 2 ^ 11 := e.isLt
  have hne : e.toNat ≠ 2047 := fun hn => he (BitVec.eq_of_toNat_eq hn)
  have hlog : (1#1 ++ m).toNat.log2 = 52 := by
    rw [toNat_leading_append, leadingBit]
    have hpos : 0x10000000000000 + m.toNat ≠ 0 := by omega
    have hupper := (Nat.log2_lt hpos (k := 53)).2 (by omega)
    have hlower := (Nat.le_log2 hpos (k := 52)).2 (by omega)
    omega
  have hbias : ((e.toNat : Int) - 1075 + (Format.binary64.exponentBias : Nat)
      + (Format.binary64.mantissaBitsWithoutImplicit : Nat)).toNat = e.toNat := by
    rw [show ((Format.binary64.exponentBias : Nat) : Int) = 1023 from rfl,
      show ((Format.binary64.mantissaBitsWithoutImplicit : Nat) : Int) = 52 from rfl]
    omega
  unfold UnpackedFloat.pack
  dsimp only
  rw [hlog, hbias]
  rw [if_neg (by simp; omega), if_pos (by rfl)]
  congr 1
  · simp
  · apply BitVec.eq_of_toNat_eq
    rw [toNat_leading_append, leadingBit, BitVec.toNat_ofNat]
    omega

theorem pack_unpack {b : BitVec 64} (h : Format.binary64.Valid b) :
    UnpackedFloat.pack Format.binary64 (UnpackedFloat.unpack Format.binary64 b) = b := by
  have hparts := packComponents_unpack b
  unfold UnpackedFloat.unpack
  dsimp only
  by_cases he : @unpackExponent Format.binary64 b = -1#_
  · rw [if_pos he]
    by_cases hm : @unpackMantissa Format.binary64 b = 0#_
    · rw [if_pos hm]
      rw [he, hm] at hparts
      exact hparts
    · rw [if_neg hm]
      exact (h.eq_packedNaN he hm).symm
  · rw [if_neg he]
    by_cases hzero : @unpackExponent Format.binary64 b = 0#_
    · rw [if_pos hzero]
      rw [hzero] at hparts
      by_cases hm : @unpackMantissa Format.binary64 b = 0#_
      · rw [dif_pos hm]
        rw [hm] at hparts
        exact hparts
      · rw [dif_neg hm]
        have hexponent : ((@unpackExponent Format.binary64 b).toNat : Int)
            - ((Format.binary64.exponentBias : Nat)
              + (Format.binary64.mantissaBitsWithoutImplicit : Nat)) + 1 = -1074 := by
          rw [hzero]
          rfl
        exact (pack_subnormal _ _ hexponent _).trans hparts
    · rw [if_neg hzero]
      exact (pack_normal _ _ _ he _).trans hparts

/-! ## Floats -/

/-- The bits of a float make it up. -/
theorem ofBits_toBits (x : Float) : Float.ofBits x.toBits = x := by
  obtain ⟨⟨bits, hvalid⟩⟩ := x
  show Float.ofModel ⟨UInt64.ofBitVec _, _⟩ = _
  congr 2
  exact congrArg UInt64.ofBitVec (pack_unpack hvalid)

/-- The exponent field has all its bits set and the fraction has one exactly above infinity. -/
theorem isNaN_iff (b : BitVec 64) :
    (@unpackExponent Format.binary64 b = -1#_ ∧
      @unpackMantissa Format.binary64 b ≠ 0#_) ↔ infinity < b.toNat % signBit := by
  have hexponent : @unpackExponent Format.binary64 b = -1#_ ↔
      b.toNat / 2 ^ 52 % 2 ^ 11 = 2047 := by
    rw [← BitVec.toNat_inj]
    simp [unpackExponent, BitVec.extractLsb, BitVec.extractLsb'_toNat, Nat.shiftRight_eq_div_pow]
  have hmantissa : @unpackMantissa Format.binary64 b = 0#_ ↔ b.toNat % 2 ^ 52 = 0 := by
    rw [← BitVec.toNat_inj]
    simp [unpackMantissa, BitVec.extractLsb, BitVec.extractLsb'_toNat]
  rw [hexponent, Ne, hmantissa, infinity, signBit]
  omega

/-- Bits that are no NaN come back from the float made of them. -/
theorem toBits_ofBits {bits : UInt64} (h : bits.toNat % signBit ≤ infinity) :
    (Float.ofBits bits).toBits = bits := by
  have hvalid : Format.binary64.Valid bits.toBitVec :=
    ⟨fun he hm => absurd ((isNaN_iff _).1 ⟨he, hm⟩) (Nat.not_lt.2 h)⟩
  exact congrArg UInt64.ofBitVec (pack_unpack hvalid)

/-- All NaNs have one pattern. -/
theorem pattern_le_or_eq (x : Float) : pattern x ≤ infinity ∨ x.toBits.toNat = quietNaN := by
  by_cases h : pattern x ≤ infinity
  · exact .inl h
  · right
    obtain ⟨⟨bits, hvalid⟩⟩ := x
    obtain ⟨he, hm⟩ := (isNaN_iff bits.toBitVec).2 (Nat.not_le.1 h)
    have := congrArg BitVec.toNat (hvalid.eq_packedNaN he hm)
    exact this.trans (by decide)

/-! ## Signs and patterns -/

/-- A float is made of its sign and its pattern. -/
theorem toFloat_isNegative_pattern (x : Float) : toFloat (isNegative x) (pattern x) = x := by
  have hlt : x.toBits.toNat < 2 ^ 64 := x.toBits.toNat_lt
  have hbits : (if isNegative x then signBit + pattern x else pattern x) = x.toBits.toNat := by
    by_cases h : signBit ≤ x.toBits.toNat
    · simp only [isNegative, pattern, h, decide_true, if_true]
      rw [signBit] at h ⊢
      omega
    · simp only [isNegative, pattern, h, decide_false]
      exact Nat.mod_eq_of_lt (Nat.not_le.1 h)
  rw [toFloat, hbits, UInt64.ofNat_toNat, ofBits_toBits]

/-- The bits of a float that is no NaN. -/
theorem toNat_toBits_toFloat {negative : Bool} {p : Nat} (h : p ≤ infinity) :
    (toFloat negative p).toBits.toNat = if negative then signBit + p else p := by
  have hp : p ≤ 0x7FF0000000000000 := h
  have hlt : (if negative then signBit + p else p) < UInt64.size := by
    rw [signBit, UInt64.size]
    split <;> omega
  have hpattern : (if negative then signBit + p else p) % signBit ≤ infinity := by
    rw [signBit, infinity]
    split <;> omega
  rw [toFloat, toBits_ofBits, UInt64.toNat_ofNat_of_lt' hlt]
  rwa [UInt64.toNat_ofNat_of_lt' hlt]

theorem isNegative_toFloat {negative : Bool} {p : Nat} (h : p ≤ infinity) :
    isNegative (toFloat negative p) = negative := by
  have hp : p < signBit := Nat.lt_of_le_of_lt h (by decide)
  rw [isNegative, toNat_toBits_toFloat h]
  cases negative with
  | false => exact decide_eq_false (Nat.not_le.2 hp)
  | true => exact decide_eq_true (Nat.le_add_right signBit p)

theorem pattern_toFloat {negative : Bool} {p : Nat} (h : p ≤ infinity) :
    pattern (toFloat negative p) = p := by
  have hp : p < signBit := Nat.lt_of_le_of_lt h (by decide)
  rw [pattern, toNat_toBits_toFloat h]
  split
  · rw [Nat.add_mod_left, Nat.mod_eq_of_lt hp]
  · exact Nat.mod_eq_of_lt hp

end InfixCalculator.Binary64
