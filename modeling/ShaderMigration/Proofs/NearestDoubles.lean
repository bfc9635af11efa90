import Mathlib
import ShaderMigration.Value

-- The theory of the float model comes with the whole library only.

namespace ShaderMigration.Binary64

open Float.Model (Format UnpackedFloat totalExponent)
open Float.Model.UnpackedFloat (ExtendedMantissa Sign)

/-- The quotient nearest to a fraction; of two as near, the even one. -/
def nearestQuotient (n d : Nat) : Nat :=
  if 2 * (n % d) < d then n / d
  else if 2 * (n % d) = d then n / d + n / d % 2
  else n / d + 1

/-- How far neighbouring doubles around a natural number lie apart, in powers of two. -/
def grain (n : Nat) : Nat := n.log2 - 52

/-- The integer that the double nearest to an integer denotes. -/
def nearest (n : Int) : Int :=
  n.sign * (nearestQuotient n.natAbs (2 ^ grain n.natAbs) * 2 ^ grain n.natAbs : Nat)

def signFactor : Sign → ℚ
  | .positive => 1
  | .negative => -1

theorem signFactor_neg (sign : Sign) : signFactor (-sign) = -signFactor sign := by
  cases sign with
  | positive => rfl
  | negative => exact (neg_neg (1 : ℚ)).symm

theorem abs_signFactor_mul (sign : Sign) {x : ℚ} (hx : 0 ≤ x) : |signFactor sign * x| = x := by
  cases sign with
  | positive => rw [signFactor, one_mul, abs_of_nonneg hx]
  | negative => rw [signFactor, neg_one_mul, abs_neg, abs_of_nonneg hx]

theorem signFactor_injective : Function.Injective signFactor := by
  intro s t h
  cases s <;> cases t <;> first | rfl | norm_num [signFactor] at h

/-- The number that an unpacked double with a full mantissa denotes. -/
inductive Denotes : UnpackedFloat → ℚ → Prop
  | zero (sign : Sign) : Denotes (.zero sign) 0
  | normal (sign : Sign) {mantissa : Nat} {exponent : Int} (hpos : 0 < mantissa)
      (hfull : 2 ^ 52 ≤ mantissa) (hfits : mantissa < 2 ^ 53)
      (hlow : -1074 ≤ exponent) (hhigh : exponent ≤ 971) :
      Denotes (.finite sign mantissa exponent hpos) (signFactor sign * (mantissa * 2 ^ exponent))

theorem pack_finite (sign : Sign) {mantissa biased : Nat} (exponent : Int) (hpos : 0 < mantissa)
    (hfull : 2 ^ 52 ≤ mantissa) (hfits : mantissa < 2 ^ 53) (hbiased : exponent + 1075 = biased)
    (hhigh : biased < 2047) :
    UnpackedFloat.pack Format.binary64 (.finite sign mantissa exponent hpos) =
      UnpackedFloat.packComponents Format.binary64 sign (BitVec.ofNat 11 biased)
        (BitVec.ofNat 52 mantissa) := by
  have hbias : (Format.binary64.exponentBias : Int) +
      Format.binary64.mantissaBitsWithoutImplicit = 1075 := rfl
  have hlimit : 2 ^ Format.binary64.exponentBits = 2048 := rfl
  have hlog : mantissa.log2 + 1 = Format.binary64.mantissaBits := by
    rw [show Format.binary64.mantissaBits = 53 from rfl,
      (Nat.log2_eq_iff hpos.ne').mpr ⟨hfull, hfits⟩]
  rw [UnpackedFloat.pack]
  dsimp only
  rw [Int.add_assoc, hbias, hlimit, hbiased, Int.toNat_natCast, if_neg (by omega), if_pos hlog]

/-- A double with a full mantissa is packed without loss. -/
theorem Denotes.unpack_pack {u : UnpackedFloat} {q : ℚ} (h : Denotes u q) :
    UnpackedFloat.unpack Format.binary64 (UnpackedFloat.pack Format.binary64 u) = u := by
  cases h with
  | zero sign => exact UnpackedFloat.unpack_packedZero
  | @normal sign mantissa exponent hpos hfull hfits hlow hhigh =>
    have hbias : (Format.binary64.exponentBias : Int) +
        Format.binary64.mantissaBitsWithoutImplicit = 1075 := rfl
    obtain ⟨biased, hbiased⟩ : ∃ biased : Nat, exponent + 1075 = biased :=
      Int.eq_ofNat_of_zero_le (by omega)
    have hexponent : (BitVec.ofNat 11 biased).toNat = biased := by
      rw [BitVec.toNat_ofNat, Nat.mod_eq_of_lt (by omega)]
    have hmantissa : (1#1 ++ BitVec.ofNat 52 mantissa).toNat = mantissa := by
      rw [BitVec.toNat_append, ← Nat.shiftLeft_add_eq_or_of_lt (BitVec.isLt _), BitVec.toNat_ofNat,
        Nat.shiftLeft_eq]
      show 1 * 2 ^ 52 + mantissa % 2 ^ 52 = mantissa
      omega
    have hones : BitVec.ofNat 11 biased ≠ -1#11 := by
      intro heq
      have := congrArg BitVec.toNat heq
      rw [hexponent, show (-1#11 : BitVec 11).toNat = 2047 from rfl] at this
      omega
    have hzero : BitVec.ofNat 11 biased ≠ 0#11 := by
      intro heq
      have := congrArg BitVec.toNat heq
      rw [hexponent, show (0#11 : BitVec 11).toNat = 0 from rfl] at this
      omega
    rw [pack_finite sign exponent hpos hfull hfits hbiased (by omega)]
    unfold UnpackedFloat.unpack
    simp only [UnpackedFloat.unpackMantissa_packComponents,
      UnpackedFloat.unpackExponent_packComponents, UnpackedFloat.unpackSign_packComponents,
      Sign.ofBitVec_toBitVec]
    rw [if_neg hones, if_neg hzero]
    simp only [hexponent, hmantissa, hbias, ← hbiased]
    congr 1
    omega

theorem Denotes.neg {u : UnpackedFloat} {q : ℚ} (h : Denotes u q) : Denotes u.neg (-q) := by
  cases h with
  | zero sign =>
    rw [neg_zero]
    exact .zero _
  | @normal sign mantissa exponent hpos hfull hfits hlow hhigh =>
    rw [neg_mul_eq_neg_mul, ← signFactor_neg]
    exact .normal _ hpos hfull hfits hlow hhigh

theorem exponent_le_of_eq {m n : Nat} {e f : Int} (hm : 2 ^ 52 ≤ m) (hn : n < 2 ^ 53)
    (h : (m : ℚ) * 2 ^ e = n * 2 ^ f) : e ≤ f := by
  by_contra hlt
  have hpow : (2 : ℚ) ^ (f + 1) ≤ 2 ^ e := zpow_le_zpow_right₀ (by norm_num) (by omega)
  have hle : (2 : ℚ) ^ 52 ≤ m := by exact_mod_cast hm
  have hcontra := calc
    (n : ℚ) * 2 ^ f < 2 ^ 53 * 2 ^ f := by
      have : (n : ℚ) < 2 ^ 53 := by exact_mod_cast hn
      gcongr
    _ = 2 ^ 52 * 2 ^ (f + 1) := by
      rw [zpow_add_one₀ (by norm_num)]
      ring
    _ ≤ m * 2 ^ e := by gcongr
  exact absurd h hcontra.ne'

/-- Doubles are equal when they denote the same number. -/
theorem Denotes.beq_iff {u v : UnpackedFloat} {q r : ℚ} (hu : Denotes u q) (hv : Denotes v r) :
    u.beq v = true ↔ q = r := by
  have hne : ∀ (sign : Sign) (mantissa : Nat) (exponent : Int), 0 < mantissa →
      signFactor sign * ((mantissa : ℚ) * 2 ^ exponent) ≠ 0 := by
    intro sign mantissa exponent hpos hzero
    have habs := congrArg abs hzero
    rw [abs_signFactor_mul _ (by positivity), abs_zero] at habs
    exact absurd habs (by positivity)
  rw [UnpackedFloat.beq_iff_ne_notANumber_and_eq]
  cases hu with
  | zero sign =>
    cases hv with
    | zero sign' => cases sign <;> cases sign' <;> simp
    | normal sign' hpos => simpa using (hne sign' _ _ hpos).symm
  | @normal sign m e hpos hfull hfits hlow hhigh =>
    cases hv with
    | zero => simpa using hne sign _ _ hpos
    | @normal sign' n f hpos' hfull' hfits' hlow' hhigh' =>
      constructor
      · intro ⟨_, _, h⟩
        simp only [reduceCtorEq, false_and, or_false, UnpackedFloat.finite.injEq] at h
        obtain ⟨rfl, rfl, rfl⟩ := h
        rfl
      · intro h
        have hmagnitude : (m : ℚ) * 2 ^ e = n * 2 ^ f := by
          have habs := congrArg abs h
          rwa [abs_signFactor_mul _ (by positivity), abs_signFactor_mul _ (by positivity)] at habs
        obtain rfl : e = f := le_antisymm (exponent_le_of_eq hfull hfits' hmagnitude)
          (exponent_le_of_eq hfull' hfits hmagnitude.symm)
        have hpow : (2 : ℚ) ^ e ≠ 0 := by positivity
        obtain rfl : m = n := by exact_mod_cast mul_right_cancel₀ hpow hmagnitude
        have hvalue : (m : ℚ) * 2 ^ e ≠ 0 := by positivity
        obtain rfl := signFactor_injective (mul_right_cancel₀ hvalue h)
        simp

/-- The bits that shifts have cut off decide on which side of the half the rest lies. -/
theorem exact_shiftRight (n k : Nat) : ExtendedMantissa.mk n false false >>> k =
    ⟨n / 2 ^ k, decide (2 ^ k ≤ 2 * (n % 2 ^ k)),
      decide (2 * (n % 2 ^ k) ≠ 0 ∧ 2 * (n % 2 ^ k) ≠ 2 ^ k)⟩ := by
  induction k with
  | zero =>
    change ExtendedMantissa.mk n false false = _
    simp [Nat.mod_one]
  | succ k ih =>
    change (ExtendedMantissa.mk n false false >>> k).shiftRightOne = _
    have hrest : n % 2 ^ k < 2 ^ k := Nat.mod_lt _ (by positivity)
    have hbit := Nat.mod_two_eq_zero_or_one (n / 2 ^ k)
    rw [ih, ExtendedMantissa.shiftRightOne, Nat.mod_pow_succ, pow_succ, ← Nat.div_div_eq_div_mul]
    generalize n % 2 ^ k = rest at *
    generalize n / 2 ^ k = quotient at *
    generalize 2 ^ k = divisor at *
    have hround : (quotient % 2 != 0) =
        decide (divisor * 2 ≤ 2 * (rest + divisor * (quotient % 2))) := by
      rcases hbit with hbit | hbit <;> rw [hbit, Bool.eq_iff_iff, decide_eq_true_iff] <;>
        simp <;> omega
    have hsticky : (decide (divisor ≤ 2 * rest) || decide (2 * rest ≠ 0 ∧ 2 * rest ≠ divisor)) =
        decide (2 * (rest + divisor * (quotient % 2)) ≠ 0 ∧
          2 * (rest + divisor * (quotient % 2)) ≠ divisor * 2) := by
      rw [← Bool.decide_or, decide_eq_decide]
      rcases hbit with hbit | hbit <;> rw [hbit] <;> omega
    rw [← hround, ← hsticky]

theorem roundedMantissa_shiftRight (n k : Nat) :
    (ExtendedMantissa.mk n false false >>> k).roundedMantissa = nearestQuotient n (2 ^ k) := by
  have hpos : 0 < 2 ^ k := by positivity
  rw [exact_shiftRight, nearestQuotient, ExtendedMantissa.roundedMantissa]
  generalize n % 2 ^ k = rest
  generalize 2 ^ k = divisor at *
  rcases lt_trichotomy (2 * rest) divisor with hlt | heq | hgt
  · rw [decide_eq_false (not_le.mpr hlt), if_pos hlt]
    cases decide (2 * rest ≠ 0 ∧ 2 * rest ≠ divisor) <;> rfl
  · rw [decide_eq_true heq.ge, decide_eq_false (by omega), if_neg (by omega), if_pos heq]
    rfl
  · rw [decide_eq_true hgt.le, decide_eq_true (by omega), if_neg (by omega), if_neg (by omega)]
    rfl

/-- A quotient with 53 bits keeps them, unless it is rounded up to the next power of two. -/
theorem nearestQuotient_bounds {n d : Nat} (hlow : 2 ^ 52 ≤ n / d) (hhigh : n / d < 2 ^ 53) :
    2 ^ 52 ≤ nearestQuotient n d ∧ nearestQuotient n d ≤ 2 ^ 53 := by
  unfold nearestQuotient
  split
  · omega
  · split <;> omega

theorem shiftToTargetExponent_eq {mantissa k : Nat} {exponent : Int}
    (hlow : -1074 ≤ exponent) (hlog : mantissa.log2 = 52 + k) :
    UnpackedFloat.shiftToTargetExponent Format.binary64 mantissa exponent .exact =
      (ExtendedMantissa.mk mantissa false false >>> k, exponent + k) := by
  have hmin : Format.binary64.minExponent = -1074 := rfl
  have hbits : (Format.binary64.mantissaBits : Int) = 53 := rfl
  have hshift : (Format.binary64.targetExponent (totalExponent mantissa exponent) - exponent).toNat =
      k := by
    unfold Format.targetExponent totalExponent
    rw [hmin, hbits]
    omega
  unfold UnpackedFloat.shiftToTargetExponent UnpackedFloat.shiftToExponent
  dsimp only
  rw [hshift]
  rfl

theorem log2_eq_add_grain {n : Nat} (h : 2 ^ 52 ≤ n) : n.log2 = 52 + grain n := by
  have : 52 ≤ n.log2 := (Nat.le_log2 (by omega)).mpr h
  unfold grain
  omega

theorem div_grain_bounds {n : Nat} (h : 2 ^ 52 ≤ n) :
    2 ^ 52 ≤ n / 2 ^ grain n ∧ n / 2 ^ grain n < 2 ^ 53 := by
  have hne : n ≠ 0 := by omega
  obtain ⟨hlow, hhigh⟩ := (Nat.log2_eq_iff hne).mp (log2_eq_add_grain h)
  rw [pow_add] at hlow
  rw [show 52 + grain n + 1 = 53 + grain n by omega, pow_add] at hhigh
  have hpos : 0 < 2 ^ grain n := by positivity
  exact ⟨(Nat.le_div_iff_mul_le hpos).mpr hlow, (Nat.div_lt_iff_lt_mul hpos).mpr hhigh⟩

theorem denotes_roundWithAccuracy (sign : Sign) {n : Nat} {exponent : Int}
    (hfull : 2 ^ 52 ≤ n) (hlow : -1074 ≤ exponent) (hhigh : exponent + grain n ≤ 970) :
    Denotes (UnpackedFloat.roundWithAccuracy Format.binary64 sign n exponent .exact)
      (signFactor sign * (nearestQuotient n (2 ^ grain n) * 2 ^ (exponent + grain n))) := by
  obtain ⟨hquotient, hcarried⟩ :=
    nearestQuotient_bounds (div_grain_bounds hfull).1 (div_grain_bounds hfull).2
  unfold UnpackedFloat.roundWithAccuracy
  rw [shiftToTargetExponent_eq hlow (log2_eq_add_grain hfull)]
  dsimp only
  rw [roundedMantissa_shiftRight]
  generalize nearestQuotient n (2 ^ grain n) = quotient at *
  rcases hcarried.lt_or_eq with hfits | rfl
  · have hlog : quotient.log2 = 52 + 0 := (Nat.log2_eq_iff (by omega)).mpr ⟨hquotient, hfits⟩
    rw [shiftToTargetExponent_eq (by omega) hlog]
    change Denotes (if h : quotient = 0 then _ else _) _
    rw [dif_neg (by omega)]
    change Denotes (.finite sign quotient (exponent + grain n + (0 : Nat)) _) _
    rw [Nat.cast_zero, add_zero]
    exact .normal sign _ hquotient hfits (by omega) (by omega)
  · -- the mantissa has one bit too many, which is zero
    have hlog : (2 ^ 53).log2 = 52 + 1 := Nat.log2_two_pow
    rw [shiftToTargetExponent_eq (by omega) hlog]
    have hvalue : ((2 ^ 53 : Nat) : ℚ) * 2 ^ (exponent + grain n) =
        (2 ^ 52 : Nat) * 2 ^ (exponent + grain n + (1 : Nat)) := by
      rw [Nat.cast_one, zpow_add_one₀ (by norm_num)]
      push_cast
      ring
    rw [hvalue]
    change Denotes (.finite sign (2 ^ 52) (exponent + grain n + (1 : Nat)) _) _
    exact .normal sign (by decide) (by decide) (by decide) (by omega) (by omega)

theorem nearestQuotient_one (n : Nat) : nearestQuotient n 1 = n := by
  rw [nearestQuotient, Nat.mod_one, if_pos (by decide), Nat.div_one]

theorem grain_of_lt {n : Nat} (h : n < 2 ^ 53) : grain n = 0 := by
  by_cases hzero : n = 0
  · rw [hzero]
    rfl
  · have := (Nat.log2_lt hzero).mpr h
    unfold grain
    omega

theorem shifted_bounds {n : Nat} (hpos : 0 < n) (hlt : n < 2 ^ 52) :
    2 ^ 52 ≤ n * 2 ^ (52 - n.log2) ∧ n * 2 ^ (52 - n.log2) < 2 ^ 53 := by
  obtain ⟨hlow, hhigh⟩ := (Nat.log2_eq_iff hpos.ne').mp rfl
  have hlog : n.log2 < 52 := (Nat.log2_lt hpos.ne').mpr hlt
  constructor
  · calc 2 ^ 52 = 2 ^ n.log2 * 2 ^ (52 - n.log2) := by
          rw [← pow_add, show n.log2 + (52 - n.log2) = 52 by omega]
      _ ≤ n * 2 ^ (52 - n.log2) := Nat.mul_le_mul_right _ hlow
  · calc n * 2 ^ (52 - n.log2) < 2 ^ (n.log2 + 1) * 2 ^ (52 - n.log2) :=
          Nat.mul_lt_mul_of_pos_right hhigh (by positivity)
      _ = 2 ^ 53 := by rw [← pow_add, show n.log2 + 1 + (52 - n.log2) = 53 by omega]

/-- Rounding a positive integer. -/
theorem denotes_round (sign : Sign) {n : Nat} (hpos : 0 < n) (hlt : n < 2 ^ 64) :
    Denotes (UnpackedFloat.round Format.binary64 sign n 0)
      (signFactor sign * (nearestQuotient n (2 ^ grain n) * 2 ^ grain n : Nat)) := by
  have hmin : Format.binary64.minExponent = -1074 := rfl
  have hbits : (Format.binary64.mantissaBits : Int) = 53 := rfl
  have hshift : (0 - Format.binary64.targetExponent (totalExponent n 0)).toNat = 52 - n.log2 := by
    unfold Format.targetExponent totalExponent
    rw [hmin, hbits]
    omega
  have hlog : n.log2 < 64 := (Nat.log2_lt hpos.ne').mpr hlt
  unfold UnpackedFloat.round UnpackedFloat.decreaseExponent
  dsimp only
  rw [hshift, Nat.shiftLeft_eq]
  by_cases hfull : 2 ^ 52 ≤ n
  · have hgrain := log2_eq_add_grain hfull
    rw [show 52 - n.log2 = 0 by omega, pow_zero, mul_one]
    have hround := denotes_roundWithAccuracy sign hfull (show -1074 ≤ (0 : Int) by omega) (by omega)
    rw [zero_add, zpow_natCast] at hround
    push_cast
    exact hround
  · have hshifted := shifted_bounds hpos (not_le.mp hfull)
    have hround := denotes_roundWithAccuracy sign hshifted.1
      (show -1074 ≤ 0 - ((52 - n.log2 : Nat) : Int) by omega) (by rw [grain_of_lt hshifted.2]; omega)
    have hvalue : ((n * 2 ^ (52 - n.log2) : Nat) : ℚ) * 2 ^ (0 - ((52 - n.log2 : Nat) : Int)) = n := by
      rw [zero_sub, zpow_neg, zpow_natCast]
      push_cast
      field_simp
    rw [grain_of_lt hshifted.2, pow_zero, nearestQuotient_one, Nat.cast_zero, add_zero, hvalue]
      at hround
    rw [grain_of_lt (by omega), pow_zero, nearestQuotient_one, mul_one]
    exact hround

theorem nearest_of_pos {n : Int} (h : 0 < n) :
    nearest n = (nearestQuotient n.natAbs (2 ^ grain n.natAbs) * 2 ^ grain n.natAbs : Nat) := by
  rw [nearest, Int.sign_eq_one_of_pos h, one_mul]

theorem nearest_neg (n : Int) : nearest (-n) = -nearest n := by
  rw [nearest, nearest, Int.sign_neg, Int.natAbs_neg, neg_mul]

/-- A natural number of 64 bits becomes the double nearest to it. -/
theorem denotes_toFloat (n : UInt64) : Denotes n.toFloat.toModel.unpack (nearest n.toNat) := by
  have hnormalize :
      Denotes (UnpackedFloat.normalize Format.binary64 n.toNat 0 .positive) (nearest n.toNat) := by
    unfold UnpackedFloat.normalize
    split
    next h =>
      simp [Int.compare_eq_lt] at h
      omega
    next h =>
      rw [Int.compare_eq_eq] at h
      rw [h]
      exact .zero _
    next h =>
      have hpos : 0 < (n.toNat : Int) := Int.compare_eq_gt.mp h
      have hround := denotes_round .positive (show 0 < n.toNat by omega) n.toNat_lt
      rw [signFactor, one_mul] at hround
      rw [nearest_of_pos hpos, Int.natAbs_natCast, Int.cast_natCast]
      exact hround
  change Denotes (UnpackedFloat.unpack Format.binary64 (UnpackedFloat.pack Format.binary64
    (UnpackedFloat.normalize Format.binary64 n.toNat 0 .positive))) _
  rw [hnormalize.unpack_pack]
  exact hnormalize

/-- An integer of 64 bits becomes the double nearest to it. -/
theorem denotes_ofInt64 (n : Int64) : Denotes (ofInt64 n).toModel.unpack (nearest n.toInt) := by
  have hbound := n.le_toInt
  have hlt := n.toInt_lt
  have hmagnitude := denotes_toFloat (UInt64.ofNat n.toInt.natAbs)
  rw [UInt64.toNat_ofNat_of_lt' (show n.toInt.natAbs < 2 ^ 64 by omega)] at hmagnitude
  unfold ofInt64
  dsimp only
  split
  next hneg =>
    have hnegated := hmagnitude.neg
    change Denotes (UnpackedFloat.unpack Format.binary64 (UnpackedFloat.pack Format.binary64
      (UInt64.ofNat n.toInt.natAbs).toFloat.toModel.unpack.neg)) _
    rw [hnegated.unpack_pack]
    have habs : n.toInt = -(n.toInt.natAbs : Int) := by omega
    rw [habs, nearest_neg, Int.natAbs_neg, Int.natAbs_natCast, Int.cast_neg]
    exact hnegated
  next hneg =>
    have habs : (n.toInt.natAbs : Int) = n.toInt := by omega
    rw [habs] at hmagnitude
    exact hmagnitude

/-- Integers become equal doubles when they are rounded to the same integer. -/
theorem ofInt64_beq_iff (a b : Int64) :
    (ofInt64 a == ofInt64 b) = true ↔ nearest a.toInt = nearest b.toInt := by
  have hbeq := (denotes_ofInt64 a).beq_iff (denotes_ofInt64 b)
  rw [Int.cast_inj] at hbeq
  exact hbeq

theorem nearest_of_small {n : Int} (h : n.natAbs < 2 ^ 53) : nearest n = n := by
  rw [nearest, grain_of_lt h, pow_zero, nearestQuotient_one, mul_one]
  exact Int.sign_mul_natAbs n

/-- Integers beyond them are not rounded to one of them. -/
theorem natAbs_nearest_of_large {n : Int} (h : 2 ^ 53 ≤ n.natAbs) : 2 ^ 53 ≤ (nearest n).natAbs := by
  have hgrain : 1 ≤ grain n.natAbs := by
    have : 53 ≤ n.natAbs.log2 := (Nat.le_log2 (by omega)).mpr h
    unfold grain
    omega
  have hquotient := (nearestQuotient_bounds (div_grain_bounds (by omega)).1
    (div_grain_bounds (show 2 ^ 52 ≤ n.natAbs by omega)).2).1
  have hsign : n.sign.natAbs = 1 := Int.natAbs_sign_of_ne_zero (by omega)
  rw [nearest, Int.natAbs_mul, hsign, one_mul, Int.natAbs_natCast]
  calc 2 ^ 53 = 2 ^ 52 * 2 ^ 1 := rfl
    _ ≤ nearestQuotient n.natAbs (2 ^ grain n.natAbs) * 2 ^ grain n.natAbs :=
      Nat.mul_le_mul hquotient (Nat.pow_le_pow_right (by decide) hgrain)

/-- An integer of 53 bits is not mistaken for another one. -/
theorem nearest_eq_iff_of_small {a b : Int} (h : a.natAbs < 2 ^ 53) :
    nearest a = nearest b ↔ a = b := by
  constructor
  · intro heq
    rw [nearest_of_small h] at heq
    by_cases hb : b.natAbs < 2 ^ 53
    · rwa [nearest_of_small hb] at heq
    · have := natAbs_nearest_of_large (not_lt.mp hb)
      omega
  · exact congrArg nearest

end ShaderMigration.Binary64
