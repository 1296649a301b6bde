import Mathlib

/-!
# Doubles that are zero

A double equals zero if it has the bits of the one zero or of the other (`beq_zero_iff`), and a
whole number becomes such a double only if it is zero itself (`ofInt_beq_zero_iff`).  For the
second, a number is followed through all that makes a double of it.  Rounding may change it, and may
make it infinite, but leaves 53 bits to its mantissa (`IsLarge`), and so does everything after that.
-/

namespace LinkMonitor.Decimal

open Float.Model Float.Model.UnpackedFloat

/-! ## Mantissas -/

theorem log2_mul_two_pow {m : Nat} (hm : m ≠ 0) (k : Nat) : (m * 2 ^ k).log2 = m.log2 + k := by
  induction k with
  | zero => rw [Nat.pow_zero, Nat.mul_one, Nat.add_zero]
  | succ k ih =>
      have hne : m * 2 ^ k ≠ 0 := Nat.mul_ne_zero hm (by simp)
      have hdouble : m * 2 ^ (k + 1) = 2 * (m * 2 ^ k) := by ring
      rw [hdouble, Nat.log2_two_mul hne, ih, Nat.add_assoc]

theorem mantissa_shiftRight (em : ExtendedMantissa) (k : Nat) :
    (em >>> k).mantissa = em.mantissa / 2 ^ k := by
  change (k.repeat ExtendedMantissa.shiftRightOne em).mantissa = _
  induction k with
  | zero => rw [Nat.repeat, Nat.pow_zero, Nat.div_one]
  | succ k ih =>
      rw [Nat.repeat, Nat.pow_succ, ← Nat.div_div_eq_div_mul, ← ih]
      rfl

theorem mantissa_le_roundedMantissa (em : ExtendedMantissa) :
    em.mantissa ≤ em.roundedMantissa := by
  obtain ⟨m, round, sticky⟩ := em
  cases round <;> cases sticky <;>
    simp [ExtendedMantissa.roundedMantissa, ExtendedMantissa.accuracy,
      Accuracy.roundToNearestEven]

/-! ## Rounding -/

/-- A double that is infinite, or not so close to zero that its mantissa has fewer than 53 bits. -/
inductive IsLarge : UnpackedFloat → Prop
  | infinity (sign : Sign) : IsLarge (.infinity sign)
  | finite {sign : Sign} {mantissa : Nat} {exponent : Int} {hpos : 0 < mantissa} :
      mantissa.log2 = 52 → -1074 ≤ exponent → IsLarge (.finite sign mantissa exponent hpos)

section Rounding

variable {m : Nat} {e : Int} (hlog : 52 ≤ m.log2) (he : -1074 ≤ m.log2 + e - 52)
include hlog he

theorem shiftToTargetExponent_of_le (accuracy : Accuracy) :
    (shiftToTargetExponent .binary64 m e accuracy).1.mantissa.log2 = 52 ∧
      (shiftToTargetExponent .binary64 m e accuracy).2 = m.log2 + e - 52 := by
  have hbits : (Format.binary64.mantissaBits : Int) = 53 := rfl
  have hmin : Format.binary64.minExponent = -1074 := rfl
  have htarget : Format.binary64.targetExponent (totalExponent m e) = m.log2 + e - 52 := by
    rw [Format.targetExponent, totalExponent, hbits, hmin]
    omega
  have hshift : (m.log2 + e - 52 - e).toNat = m.log2 - 52 := by omega
  have hmantissa : (ExtendedMantissa.ofMantissaAndAccuracy m accuracy).mantissa = m := by
    unfold ExtendedMantissa.ofMantissaAndAccuracy
    split <;> rfl
  rw [shiftToTargetExponent, htarget, shiftToExponent, hshift]
  refine ⟨?_, by omega⟩
  rw [mantissa_shiftRight, hmantissa, Nat.log2_eq_log_two, Nat.log_div_base_pow,
    ← Nat.log2_eq_log_two]
  omega

theorem isLarge_roundWithAccuracy (sign : Sign) (accuracy : Accuracy) :
    IsLarge (roundWithAccuracy .binary64 sign m e accuracy) := by
  obtain ⟨hmantissa, hexponent⟩ := shiftToTargetExponent_of_le hlog he accuracy
  simp only [roundWithAccuracy]
  generalize shiftToTargetExponent .binary64 m e accuracy = shifted at hmantissa hexponent ⊢
  have hrounded : 52 ≤ shifted.1.roundedMantissa.log2 := by
    have hle := mantissa_le_roundedMantissa shifted.1
    have hne : shifted.1.mantissa ≠ 0 := by
      intro hzero
      simp [hzero] at hmantissa
    have hpow := (Nat.le_log2 hne).mp hmantissa.ge
    exact (Nat.le_log2 (by omega)).mpr (hpow.trans hle)
  -- Rounding up may have made the mantissa too long; the second shift makes up for it.
  obtain ⟨hmantissa', hexponent'⟩ := shiftToTargetExponent_of_le (e := shifted.2) hrounded
    (by omega) .exact
  split
  · rename_i hzero
    simp [hzero] at hmantissa'
  · exact .finite hmantissa' (by omega)

end Rounding

theorem isLarge_ofNat {n : Nat} (hn : n ≠ 0) : IsLarge (UnpackedFloat.ofNat .binary64 n) := by
  have hbits : (Format.binary64.mantissaBits : Int) = 53 := rfl
  have hmin : Format.binary64.minExponent = -1074 := rfl
  have hpositive : compare (n : Int) 0 = .gt := Int.compare_eq_gt.mpr (by omega)
  have htarget : Format.binary64.targetExponent (totalExponent n 0) = n.log2 - 52 := by
    rw [Format.targetExponent, totalExponent, hbits, hmin]
    omega
  have hlog := log2_mul_two_pow hn (0 - ((n.log2 : Int) - 52)).toNat
  rw [UnpackedFloat.ofNat, UnpackedFloat.ofInt, UnpackedFloat.normalize, hpositive]
  simp only [Int.toNat_natCast, UnpackedFloat.round, htarget, decreaseExponent, Nat.shiftLeft_eq]
  exact isLarge_roundWithAccuracy (by omega) (by omega) _ _

theorem isLarge_ofScientific {n : Nat} (hn : n ≠ 0) :
    IsLarge (UnpackedFloat.ofScientific .binary64 n 0) := by
  have hbits : (Format.binary64.mantissaBits : Int) = 53 := rfl
  have hlog := log2_mul_two_pow hn 53
  have hbelow : ¬ ((0 : Int) > 2 ^ Format.binary64.exponentBits) := by decide
  have habove : ¬ ((0 : Int) < -((2 ^ Format.binary64.exponentBits : Int) + n.log2)) := by
    have hpow : (2 : Int) ^ Format.binary64.exponentBits = 2048 := rfl
    omega
  have hmantissa : n <<< Format.binary64.mantissaBits * 10 ^ Int.toNat 0 = n * 2 ^ 53 := by
    simp [Nat.shiftLeft_eq, Format.mantissaBits]
  rw [UnpackedFloat.ofScientific, dif_neg hn, if_neg hbelow, if_neg habove, if_pos (Int.le_refl 0),
    UnpackedFloat.mul, hmantissa]
  exact isLarge_roundWithAccuracy (by omega) (by omega) _ _

theorem isLarge_mul_one {u : UnpackedFloat} (h : IsLarge u) :
    IsLarge (UnpackedFloat.mul .binary64 u (.finite .positive (2 ^ 52) (-52) (by decide))) := by
  cases h with
  | infinity sign => exact .infinity _
  | @finite sign m e hpos hlog he =>
      have hlog' := log2_mul_two_pow hpos.ne' 52
      rw [UnpackedFloat.mul]
      exact isLarge_roundWithAccuracy (by omega) (by omega) _ _

theorem isLarge_neg {u : UnpackedFloat} (h : IsLarge u) : IsLarge u.neg := by
  cases h with
  | infinity sign => exact .infinity _
  | finite hlog he => exact .finite hlog he

/-! ## Bits -/

theorem isLarge_unpack_packedInfinity (sign : Sign) :
    IsLarge (UnpackedFloat.unpack .binary64 (packedInfinity .binary64 sign)) := by
  simp only [UnpackedFloat.unpack, packedInfinity, unpackExponent_packComponents,
    unpackMantissa_packComponents]
  exact .infinity _

/-- The highest bit of a mantissa is not among the bits of the double. -/
theorem log2_toNat_append_one (b : BitVec 52) : (1#1 ++ b).toNat.log2 = 52 := by
  have hb := b.isLt
  have hvalue : (1#1 ++ b).toNat = 2 ^ 52 + b.toNat := by
    rw [BitVec.toNat_append, ← Nat.shiftLeft_add_eq_or_of_lt hb]
    rfl
  rw [hvalue, Nat.log2_eq_iff (by omega)]
  omega

theorem isLarge_unpack_pack {u : UnpackedFloat} (h : IsLarge u) :
    IsLarge (UnpackedFloat.unpack .binary64 (UnpackedFloat.pack .binary64 u)) := by
  cases h with
  | infinity sign => exact isLarge_unpack_packedInfinity sign
  | @finite sign m e hpos hlog he =>
      have hbias : (Format.binary64.exponentBias : Int) = 1023 := rfl
      have hbits : m.log2 + 1 = Format.binary64.mantissaBits := by rw [hlog]; rfl
      simp only [UnpackedFloat.pack, hbits, if_true]
      split
      · exact isLarge_unpack_packedInfinity sign
      · -- The stored exponent is neither the one of the infinite nor the one of the small numbers.
        rename_i hexponent
        generalize hstored : (e + (Format.binary64.exponentBias : Int) + (52 : Nat)).toNat = stored
          at hexponent ⊢
        have hstored' : (BitVec.ofNat 11 stored).toNat = stored := by
          rw [BitVec.toNat_ofNat]
          omega
        have hinfinite : BitVec.ofNat 11 stored ≠ -1#11 := by
          have hall : (-1#11).toNat = 2047 := rfl
          rw [Ne, ← BitVec.toNat_inj, hstored', hall]
          omega
        have hsmall : BitVec.ofNat 11 stored ≠ 0#11 := by
          rw [Ne, ← BitVec.toNat_inj, hstored', BitVec.toNat_zero]
          omega
        simp only [UnpackedFloat.unpack, unpackExponent_packComponents,
          unpackMantissa_packComponents, hinfinite, hsmall, if_false, hstored']
        exact .finite (log2_toNat_append_one _) (by omega)

/-! ## Doubles -/

theorem beq_zero_iff_eq (x : Float) : (x == 0.0) = true ↔ x = 0 ∨ x = -0 := by
  constructor
  · intro h
    obtain ⟨-, -, h | ⟨h, -⟩ | ⟨h, -⟩⟩ := Float.beq_iff_ne_nan_and_eq.mp h
    · exact .inl h
    · exact .inl h
    · exact .inr h
  · rintro (rfl | rfl) <;> rfl

/-- The bits of a zero are all zero, but maybe the one of the sign. -/
theorem beq_zero_iff (x : Float) :
    (x == 0.0) = true ↔ x.toBits = 0 ∨ x.toBits = 0x8000000000000000 := by
  have hpositive : (0 : Float).toBits = 0 := rfl
  have hnegative : (-0 : Float).toBits = 0x8000000000000000 := rfl
  rw [beq_zero_iff_eq, ← Float.toBits_inj, ← Float.toBits_inj, hpositive, hnegative]

theorem isLarge_ofModel_pack {u : UnpackedFloat} (h : IsLarge u) :
    IsLarge (Float.ofModel (Float.Model.pack u)).toModel.unpack :=
  isLarge_unpack_pack h

/-- A number of few digits is converted by way of a machine word, any other one by itself. -/
theorem isLarge_floatOfNat {n : Nat} (hn : n ≠ 0) : IsLarge (Float.ofNat n).toModel.unpack := by
  change IsLarge (Float.ofScientific n false 0).toModel.unpack
  unfold Float.ofScientific
  split
  · rename_i hfew
    have hone : (Float.ofBits 0x3FF0000000000000).toModel.unpack =
      .finite .positive (2 ^ 52) (-52) (by decide) := rfl
    have hword : n.toUInt64.toNat = n := Nat.mod_eq_of_lt (by omega)
    have hfloat : IsLarge n.toUInt64.toFloat.toModel.unpack := by
      refine isLarge_ofModel_pack ?_
      rw [UnpackedFloat.ofUInt64, hword]
      exact isLarge_ofNat hn
    change IsLarge (Float.ofModel (.pack (.mul .binary64 n.toUInt64.toFloat.toModel.unpack
      (Float.ofBits 0x3FF0000000000000).toModel.unpack))).toModel.unpack
    rw [hone]
    exact isLarge_ofModel_pack (isLarge_mul_one hfloat)
  · exact isLarge_ofModel_pack (isLarge_ofScientific hn)

theorem isLarge_floatOfInt {n : Int} (hn : n ≠ 0) : IsLarge (Float.ofInt n).toModel.unpack := by
  cases n with
  | ofNat n => exact isLarge_floatOfNat (by simpa using hn)
  | negSucc n => exact isLarge_ofModel_pack (isLarge_neg (isLarge_floatOfNat n.succ_ne_zero))

/-- No whole number but zero becomes a double that is zero. -/
theorem ofInt_beq_zero_iff (n : Int) : (Float.ofInt n == 0.0) = true ↔ n = 0 := by
  have hpositive : (0 : Float).toModel.unpack = .zero .positive := rfl
  have hnegative : (-0 : Float).toModel.unpack = .zero .negative := rfl
  rw [beq_zero_iff_eq]
  constructor
  · intro hzero
    by_contra hn
    have hlarge := isLarge_floatOfInt hn
    obtain h | h := hzero
    · rw [h, hpositive] at hlarge
      cases hlarge
    · rw [h, hnegative] at hlarge
      cases hlarge
  · rintro rfl
    exact .inl rfl

end LinkMonitor.Decimal
