import Mathlib
import ShaderMigration.Value

-- The theory of the float model comes with the whole library only.

namespace ShaderMigration.Binary64

open Float.Model (Format UnpackedFloat totalExponent)
open Float.Model.UnpackedFloat (ExtendedMantissa Accuracy Sign)

theorem isFinite_iff {x : Float} : isFinite x = true ↔ x.toBits.toNat / 2 ^ 52 % 2048 ≠ 2047 := by
  unfold isFinite Dyadic.ofFloat?
  dsimp only
  rw [show Nat.pow 2 52 = 2 ^ 52 from rfl]
  split
  next h => exact iff_of_false Bool.false_ne_true (not_not_intro h)
  next h =>
    split
    next => exact iff_of_true rfl h
    next => exact iff_of_true rfl h

theorem toNat_unpackExponent (bits : BitVec 64) :
    (@UnpackedFloat.unpackExponent Format.binary64 bits).toNat = bits.toNat / 2 ^ 52 % 2048 := by
  unfold UnpackedFloat.unpackExponent
  rw [BitVec.toNat_cast, BitVec.extractLsb_toNat, Nat.shiftRight_eq_div_pow]
  rfl

theorem toNat_packComponents (sign : Sign) (exponent : BitVec 11) (mantissa : BitVec 52) :
    (UnpackedFloat.packComponents Format.binary64 sign exponent mantissa).toNat / 2 ^ 52 % 2048 =
      exponent.toNat := by
  rw [← toNat_unpackExponent, UnpackedFloat.unpackExponent_packComponents]

theorem biased_pack_zero (sign : Sign) :
    (UnpackedFloat.pack Format.binary64 (.zero sign)).toNat / 2 ^ 52 % 2048 ≠ 2047 := by
  rw [UnpackedFloat.pack, UnpackedFloat.packedZero, toNat_packComponents]
  decide

/-- A number whose exponent is in range is packed as a finite one. -/
theorem biased_pack_finite {sign : Sign} {mantissa : Nat} {exponent : Int} {h : 0 < mantissa}
    (hexponent : exponent ≤ 971) :
    (UnpackedFloat.pack Format.binary64 (.finite sign mantissa exponent h)).toNat / 2 ^ 52 % 2048 ≠
      2047 := by
  have hbias : (Format.binary64.exponentBias : Int) + Format.binary64.mantissaBitsWithoutImplicit =
      1075 := rfl
  have hlimit : 2 ^ Format.binary64.exponentBits = 2048 := rfl
  rw [UnpackedFloat.pack]
  dsimp only
  rw [Int.add_assoc, hbias, hlimit, if_neg (by omega)]
  split
  next =>
    rw [toNat_packComponents, BitVec.toNat_ofNat]
    omega
  next =>
    rw [toNat_packComponents]
    decide

/-- A finite number unpacks to zero, or to a number whose exponent is in range. -/
theorem unpack_of_isFinite {x : Float} (h : isFinite x = true) :
    (∃ sign, x.toModel.unpack = .zero sign) ∨
      ∃ sign mantissa exponent, ∃ hpos : 0 < mantissa,
        x.toModel.unpack = .finite sign mantissa exponent hpos ∧ exponent ≤ 971 := by
  rw [isFinite_iff] at h
  have hbias : (Format.binary64.exponentBias : Int) + Format.binary64.mantissaBitsWithoutImplicit =
      1075 := rfl
  have hexponent :
      (@UnpackedFloat.unpackExponent Format.binary64 x.toBits.toBitVec).toNat ≠ 2047 := by
    rw [toNat_unpackExponent]
    exact h
  have hlt : (@UnpackedFloat.unpackExponent Format.binary64 x.toBits.toBitVec).toNat < 2048 :=
    BitVec.isLt _
  show (∃ sign, UnpackedFloat.unpack Format.binary64 x.toBits.toBitVec = .zero sign) ∨
      ∃ sign mantissa exponent, ∃ hpos : 0 < mantissa,
        UnpackedFloat.unpack Format.binary64 x.toBits.toBitVec =
          .finite sign mantissa exponent hpos ∧ exponent ≤ 971
  unfold UnpackedFloat.unpack
  dsimp only
  rw [hbias]
  split
  next hones => exact absurd (congrArg BitVec.toNat hones) hexponent
  next =>
    split
    next hzero =>
      split
      next => exact .inl ⟨_, rfl⟩
      next hmantissa =>
        refine .inr ⟨_, _, _, Nat.pos_of_ne_zero fun h => hmantissa (BitVec.eq_of_toNat_eq h), rfl, ?_⟩
        rw [hzero]
        decide
    next =>
      refine .inr ⟨_, _, _, ?_, rfl, by omega⟩
      rw [BitVec.toNat_append, ← Nat.shiftLeft_add_eq_or_of_lt (BitVec.isLt _)]
      exact Nat.lt_of_lt_of_le (by decide : 0 < 2 ^ 52) (Nat.le_add_right _ _)

theorem isFinite_neg {x : Float} (h : isFinite x = true) : isFinite (-x) = true := by
  rw [isFinite_iff]
  show (UnpackedFloat.pack Format.binary64 x.toModel.unpack.neg).toNat / 2 ^ 52 % 2048 ≠ 2047
  rcases unpack_of_isFinite h with ⟨sign, heq⟩ | ⟨sign, mantissa, exponent, hpos, heq, hexponent⟩
  · rw [heq]
    exact biased_pack_zero _
  · rw [heq]
    exact biased_pack_finite hexponent

theorem mantissa_shiftRight_le (em : ExtendedMantissa) (n : Nat) :
    (em >>> n).mantissa ≤ em.mantissa := by
  induction n generalizing em with
  | zero => exact Nat.le_refl _
  | succ n ih =>
    change ((em >>> n).mantissa / 2) ≤ em.mantissa
    have := ih em
    omega

theorem roundedMantissa_le (em : ExtendedMantissa) : em.roundedMantissa ≤ em.mantissa + 1 := by
  obtain ⟨mantissa, round, sticky⟩ := em
  cases round <;> cases sticky <;>
    simp only [ExtendedMantissa.roundedMantissa, ExtendedMantissa.accuracy,
      Accuracy.roundToNearestEven] <;>
    omega

theorem snd_shiftToTargetExponent_le (mantissa : Nat) (exponent : Int) (accuracy : Accuracy) :
    let moved := (UnpackedFloat.shiftToTargetExponent Format.binary64 mantissa exponent accuracy).2
    moved ≤ exponent ∨ moved ≤ (mantissa.log2 : Int) + 1 + exponent - 53 ∨ moved ≤ -1074 := by
  have hmin : Format.binary64.minExponent = -1074 := rfl
  have hbits : (Format.binary64.mantissaBits : Int) = 53 := rfl
  unfold UnpackedFloat.shiftToTargetExponent UnpackedFloat.shiftToExponent Format.targetExponent
    totalExponent
  dsimp only
  rw [hmin, hbits]
  omega

theorem mantissa_shiftToTargetExponent_le (mantissa : Nat) (exponent : Int) :
    (UnpackedFloat.shiftToTargetExponent Format.binary64 mantissa exponent .exact).1.mantissa ≤
      mantissa := by
  unfold UnpackedFloat.shiftToTargetExponent UnpackedFloat.shiftToExponent
  exact mantissa_shiftRight_le _ _

theorem biased_roundWithAccuracy {sign : Sign} {mantissa : Nat} {exponent : Int}
    (hmantissa : mantissa < 2 ^ 120) (hexponent : exponent ≤ 0) :
    (UnpackedFloat.pack Format.binary64
      (UnpackedFloat.roundWithAccuracy Format.binary64 sign mantissa exponent .exact)).toNat /
        2 ^ 52 % 2048 ≠ 2047 := by
  have hfirst := snd_shiftToTargetExponent_le mantissa exponent .exact
  have hsmaller := mantissa_shiftToTargetExponent_le mantissa exponent
  unfold UnpackedFloat.roundWithAccuracy
  generalize UnpackedFloat.shiftToTargetExponent Format.binary64 mantissa exponent .exact = first at *
  obtain ⟨em, moved⟩ := first
  have hrounded := roundedMantissa_le em
  have hsecond := snd_shiftToTargetExponent_le em.roundedMantissa moved .exact
  dsimp only at *
  have hlog : ∀ {n : Nat}, n ≤ 2 ^ 120 → n.log2 ≤ 120 := by
    intro n hn
    by_cases hzero : n = 0
    · simp [hzero]
    · exact Nat.lt_succ_iff.mp ((Nat.log2_lt hzero).mpr (Nat.lt_of_le_of_lt hn (by decide)))
  have hlogFirst := hlog (Nat.le_of_lt hmantissa)
  have hlogSecond := hlog (show em.roundedMantissa ≤ 2 ^ 120 by omega)
  split
  next => exact biased_pack_zero sign
  next => exact biased_pack_finite (by omega)

theorem isFinite_toFloat (n : UInt64) : isFinite n.toFloat = true := by
  rw [isFinite_iff]
  show (UnpackedFloat.pack Format.binary64
    (UnpackedFloat.normalize Format.binary64 n.toNat 0 .positive)).toNat / 2 ^ 52 % 2048 ≠ 2047
  have hlt := n.toNat_lt
  unfold UnpackedFloat.normalize
  split
  next h => simp [Int.compare_eq_lt] at h; omega
  next => exact biased_pack_zero _
  next =>
    unfold UnpackedFloat.round UnpackedFloat.decreaseExponent
    dsimp only
    -- the number is shifted left by at most 52 places
    have hshift : ∀ target, target = Format.binary64.targetExponent (totalExponent n.toNat 0) →
        (0 - target).toNat ≤ 52 := by
      rintro _ rfl
      have hmin : Format.binary64.minExponent = -1074 := rfl
      have hbits : (Format.binary64.mantissaBits : Int) = 53 := rfl
      unfold Format.targetExponent totalExponent
      rw [hmin, hbits]
      omega
    have hplaces := hshift _ rfl
    refine biased_roundWithAccuracy ?_ (by omega)
    rw [Nat.shiftLeft_eq, Int.toNat_natCast]
    calc n.toNat * 2 ^ _ ≤ n.toNat * 2 ^ 52 :=
          Nat.mul_le_mul_left _ (Nat.pow_le_pow_right (by decide) hplaces)
      _ < 2 ^ 120 := by omega

/-- Every integer of 64 bits is near a finite number. -/
theorem isFinite_ofInt64 (n : Int64) : isFinite (ofInt64 n) = true := by
  unfold ofInt64
  dsimp only
  split
  next => exact isFinite_neg (isFinite_toFloat _)
  next => exact isFinite_toFloat _

theorem max_cases (x y : Float) : max x y = x ∨ max x y = y := by
  unfold max
  split
  next => exact .inr rfl
  next =>
    split
    next => exact .inr rfl
    next => exact .inl rfl

theorem min_cases (x y : Float) : min x y = x ∨ min x y = y := by
  unfold min
  split
  next => exact .inr rfl
  next =>
    split
    next => exact .inr rfl
    next => exact .inl rfl

end ShaderMigration.Binary64
