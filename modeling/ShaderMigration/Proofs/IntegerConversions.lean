import Mathlib.Data.Nat.Cast.Order.Field
import Mathlib.Tactic.FieldSimp
import Mathlib.Tactic.Linarith
import Mathlib.Tactic.Ring
import ShaderMigration.Proofs.MappedSlots

namespace ShaderMigration

namespace Dyadic

variable {d : Dyadic}

/-- The number that a sign, a mantissa and an exponent stand for. -/
def toRat (d : Dyadic) : ℚ := d.signed d.mantissa * 2 ^ d.exponent

theorem signed_eq (d : Dyadic) (n : Nat) : d.signed n = d.signed 1 * n := by
  unfold signed
  split <;> simp

theorem abs_signed_one (d : Dyadic) : |(d.signed 1 : ℚ)| = 1 := by
  unfold signed
  split <;> simp

theorem denominator_pos (d : Dyadic) : 0 < d.denominator := Nat.pow_pos (by decide)

theorem toRat_eq (d : Dyadic) : d.toRat = d.signed 1 * ((d.numerator : ℚ) / d.denominator) := by
  have hsplit : d.exponent = (d.exponent.toNat : Int) - ((-d.exponent).toNat : Int) := by omega
  have hpow : (2 : ℚ) ^ d.exponent = 2 ^ d.exponent.toNat / 2 ^ (-d.exponent).toNat := by
    conv_lhs => rw [hsplit]
    rw [zpow_sub₀ (by norm_num), zpow_natCast, zpow_natCast]
  have hnum : (d.numerator : ℚ) = d.mantissa * 2 ^ d.exponent.toNat := by
    rw [numerator]
    exact_mod_cast rfl
  have hden : (d.denominator : ℚ) = 2 ^ (-d.exponent).toNat := by
    rw [denominator]
    exact_mod_cast rfl
  rw [toRat, signed_eq, hpow, hnum, hden]
  push_cast
  ring

theorem cast_trunc (d : Dyadic) :
    (d.trunc : ℚ) = d.signed 1 * (d.numerator / d.denominator : Nat) := by
  rw [trunc, signed_eq d (d.numerator / d.denominator), Int.cast_mul, Int.cast_natCast]

theorem abs_toRat_sub_trunc (d : Dyadic) :
    |d.toRat - d.trunc| = (d.numerator % d.denominator : Nat) / (d.denominator : ℚ) := by
  have hpos : (0 : ℚ) < d.denominator := by exact_mod_cast d.denominator_pos
  have hdiv : (d.numerator : ℚ) =
      d.denominator * (d.numerator / d.denominator : Nat) + (d.numerator % d.denominator : Nat) := by
    exact_mod_cast (Nat.div_add_mod d.numerator d.denominator).symm
  have hrest : d.toRat - d.trunc =
      d.signed 1 * ((d.numerator % d.denominator : Nat) / (d.denominator : ℚ)) := by
    rw [toRat_eq, cast_trunc, hdiv]
    field_simp
    ring
  rw [hrest, abs_mul, abs_signed_one, one_mul, abs_of_nonneg (by positivity)]

theorem nearInteger_iff : d.nearInteger = true ↔ |d.toRat - d.trunc| < 1 / 2 ^ 52 := by
  have hpos : (0 : ℚ) < d.denominator := by exact_mod_cast d.denominator_pos
  rw [abs_toRat_sub_trunc, div_lt_div_iff₀ hpos (by norm_num), nearInteger, decide_eq_true_iff]
  rw [one_mul, show Nat.pow 2 52 = 2 ^ 52 from rfl]
  norm_cast

theorem mantissa_lt {x : Float} (h : ofFloat? x = some d) : d.mantissa < 2 ^ 53 := by
  unfold ofFloat? at h
  dsimp only at h
  split at h
  next => cases h
  next =>
    split at h
    next =>
      cases h
      show x.toBits.toNat % 2 ^ 52 < 2 ^ 53
      omega
    next =>
      cases h
      show 2 ^ 52 + x.toBits.toNat % 2 ^ 52 < 2 ^ 53
      omega

/-- A double that is not small has no fraction. -/
theorem toRat_eq_trunc (hmantissa : d.mantissa < 2 ^ 53) (hlarge : 2 ^ 53 ≤ |d.toRat|) :
    d.toRat = d.trunc := by
  by_cases hexponent : 0 ≤ d.exponent
  · have hone : d.denominator = 1 := by
      rw [denominator, show (-d.exponent).toNat = 0 by omega]
    have hrest := d.abs_toRat_sub_trunc
    rw [hone, Nat.mod_one, Nat.cast_zero, zero_div, abs_eq_zero] at hrest
    exact sub_eq_zero.mp hrest
  · have hnumerator : d.numerator = d.mantissa := by
      rw [numerator, show d.exponent.toNat = 0 by omega]
      exact Nat.mul_one _
    have hle : |d.toRat| ≤ d.mantissa := by
      rw [toRat_eq, abs_mul, abs_signed_one, one_mul, hnumerator, abs_of_nonneg (by positivity)]
      exact div_le_self (by positivity) (by exact_mod_cast d.denominator_pos)
    have hlt : (d.mantissa : ℚ) < 2 ^ 53 := by exact_mod_cast hmantissa
    linarith

theorem abs_trunc_le (d : Dyadic) : |(d.trunc : ℚ)| ≤ |d.toRat| := by
  have hpos : (0 : ℚ) < d.denominator := by exact_mod_cast d.denominator_pos
  rw [toRat_eq, cast_trunc, abs_mul, abs_mul, abs_signed_one, one_mul, one_mul, abs_of_nonneg (by positivity),
    abs_of_nonneg (by positivity)]
  exact Nat.cast_div_le

end Dyadic

namespace Binary64

/-- The number that a finite double denotes. -/
def toRat? (x : Float) : Option ℚ := (Dyadic.ofFloat? x).map Dyadic.toRat

def bound (q : ℚ) : Int64 := if q < 0 then Int64.minValue else Int64.maxValue

end Binary64

open Binary64 (toRat? bound)

theorem ofIntClamp_of_beyond {n : Int} (h : n < -2 ^ 63 ∨ 2 ^ 63 ≤ n) :
    Int64.ofIntClamp n = bound n := by
  have hmin := Int64.toInt_minValue
  have hmax := Int64.toInt_maxValue
  unfold Int64.ofIntClamp bound
  rcases h with h | h
  · rw [dif_neg (by omega), if_pos (by exact_mod_cast (show n < 0 by omega))]
  · rw [dif_pos (by omega), dif_neg (by omega),
      if_neg (by exact_mod_cast (show ¬ n < 0 by omega))]

theorem beyond_of_lt_abs {q : ℚ} (h : 2 ^ 63 < |q|) : q < -2 ^ 63 ∨ 2 ^ 63 ≤ q := by
  rcases lt_abs.mp h with h | h
  · exact .inr h.le
  · exact .inl (by linarith)

namespace Scalar

variable {x : Float} {q : ℚ}

/-- A number within the integers of 64 bits is not moved far. -/
theorem saturated?_of_within {i : Int64} (hx : toRat? x = some q) (h : saturated? x = some i)
    (hlow : -2 ^ 63 ≤ q) (hhigh : q < 2 ^ 63) : |q - i.toInt| < 1 / 2 ^ 52 := by
  obtain ⟨d, hd, rfl⟩ := Option.map_eq_some_iff.mp hx
  obtain ⟨_, hd', hnear⟩ := Option.bind_eq_some_iff.mp h
  obtain rfl := Option.some.inj (hd.symm.trans hd')
  split at hnear
  next hinteger =>
    obtain rfl := Option.some.inj hnear
    have hrange : -2 ^ 63 ≤ d.trunc ∧ d.trunc < 2 ^ 63 := by
      by_cases hlarge : 2 ^ 53 ≤ |d.toRat|
      · rw [Dyadic.toRat_eq_trunc (Dyadic.mantissa_lt hd) hlarge] at hlow hhigh
        exact ⟨by exact_mod_cast hlow, by exact_mod_cast hhigh⟩
      · have hsmall : |(d.trunc : ℚ)| < 2 ^ 53 := d.abs_trunc_le.trans_lt (not_le.mp hlarge)
        have hsmall' : |d.trunc| < 2 ^ 53 := by exact_mod_cast hsmall
        have := abs_lt.mp hsmall'
        omega
    have hkept : (Int64.ofIntClamp d.trunc).toInt = d.trunc :=
      Int64.toInt_ofIntClamp hrange.1 (Int.le_of_lt_add_one hrange.2)
    rw [hkept]
    exact Dyadic.nearInteger_iff.mp hinteger
  next => cases hnear

/-- A number beyond the integers of 64 bits is cut to the bound. -/
theorem saturated?_of_beyond (hx : toRat? x = some q) (h : q < -2 ^ 63 ∨ 2 ^ 63 ≤ q) :
    saturated? x = some (bound q) := by
  obtain ⟨d, hd, rfl⟩ := Option.map_eq_some_iff.mp hx
  have hlarge : 2 ^ 53 ≤ |d.toRat| := by
    rcases h with h | h
    · rw [abs_of_neg (by linarith)]
      linarith
    · exact le_trans (by linarith) (le_abs_self _)
  have htrunc := Dyadic.toRat_eq_trunc (Dyadic.mantissa_lt hd) hlarge
  have hnear : d.nearInteger = true := by
    rw [Dyadic.nearInteger_iff, ← htrunc, sub_self, abs_zero]
    norm_num
  rw [htrunc] at h ⊢
  rw [saturated?, hd, Option.bind_some, if_pos hnear,
    ofIntClamp_of_beyond (by exact_mod_cast h)]

/-- Reading a number as an integer is the coercion, except that larger numbers are refused. -/
theorem wholeNumber?_eq (hx : toRat? x = some q) :
    wholeNumber? x = if |q| ≤ 2 ^ 63 then saturated? x else none := by
  obtain ⟨d, hd, rfl⟩ := Option.map_eq_some_iff.mp hx
  rw [wholeNumber?, saturated?, hd, Option.bind_some, Option.bind_some,
    show ((Nat.pow 2 63 : Nat) : Int) = 2 ^ 63 from rfl]
  have hiff : (-2 ^ 63 ≤ d.trunc ∧ d.trunc ≤ 2 ^ 63) ↔ |d.toRat| ≤ 2 ^ 63 := by
    rw [← abs_le]
    constructor
    · intro h
      have hcast : |(d.trunc : ℚ)| ≤ 2 ^ 63 := by exact_mod_cast h
      by_cases hlarge : 2 ^ 53 ≤ |d.toRat|
      · rwa [Dyadic.toRat_eq_trunc (Dyadic.mantissa_lt hd) hlarge]
      · linarith
    · intro h
      exact_mod_cast d.abs_trunc_le.trans h
  by_cases hnear : d.nearInteger = true
  · simp only [hnear, true_and, if_true, hiff]
  · simp [hnear]

/-- The integer that a coercion makes of a payload. -/
def cutInteger? : Scalar → Option Int64
  | float x => saturated? x
  | other => other.integer?

/-- A payload gives the same integer both ways, unless it is a finite float beyond `± 2 ^ 63`. -/
theorem cutInteger?_eq_iff (s : Scalar) : s.cutInteger? = s.integer? ↔
    ∀ x q, s = .float x → toRat? x = some q → |q| ≤ 2 ^ 63 := by
  cases s with
  | bool | int | vector3 | color | string | enumeration => simp [cutInteger?]
  | float x =>
    change saturated? x = wholeNumber? x ↔ _
    constructor
    · rintro h _ q ⟨⟩ hx
      by_contra hq
      rw [wholeNumber?_eq hx, if_neg hq, saturated?_of_beyond hx (beyond_of_lt_abs (not_le.mp hq))]
        at h
      cases h
    · intro h
      cases hx : toRat? x with
      | none =>
        have hd : Dyadic.ofFloat? x = none := Option.map_eq_none_iff.mp hx
        rw [saturated?, wholeNumber?, hd, Option.bind_none, Option.bind_none]
      | some q => rw [wholeNumber?_eq hx, if_pos (h x q rfl hx)]

end Scalar

/-- The kinds of payloads that are integers, and how an integer is made into one. -/
inductive ScalarKind.Integral : ScalarKind → (Int64 → Scalar) → Prop
  | int : Integral .int .int
  | enumeration : Integral .enumeration .enumeration

theorem ScalarKind.Integral.coerce?_eq {kind : ScalarKind} {make : Int64 → Scalar}
    (h : kind.Integral make) (s : Scalar) : s.coerce? kind = s.cutInteger?.map make := by
  cases h <;> cases s <;> rfl

theorem ScalarKind.Integral.injective {kind : ScalarKind} {make : Int64 → Scalar}
    (h : kind.Integral make) : Function.Injective make := by
  cases h with
  | int => exact fun _ _ => Scalar.int.inj
  | enumeration => exact fun _ _ => Scalar.enumeration.inj

/-- A float that is written to an attribute that stores an integer leaves one there. -/
theorem Scene.slot?_set_float {scene scene' : Scene} {node : NodeId} {attr : String} {x : Float}
    {old : Scalar} {input : Option Plug} {make : Int64 → Scalar}
    (hslot : scene.slot? node attr = some ⟨.scalar old, input⟩) (hkind : old.kind.Integral make)
    (h : scene.set node attr (.float x) = .ok scene') :
    ∃ i, scene'.slot? node attr = some ⟨.scalar (make i), none⟩ ∧
      Scalar.saturated? x = some i := by
  obtain ⟨held, slot, hheld, htakes, hset⟩ := slot?_set h
  obtain rfl := Option.some.inj (hslot.symm.trans hheld)
  cases htakes with
  | @scalar stored payload fitted hvalue hfitted =>
    obtain rfl : old = stored := by simpa using hvalue
    rw [hkind.coerce?_eq] at hfitted
    obtain ⟨i, hi, rfl⟩ := Option.map_eq_some_iff.mp hfitted
    exact ⟨i, by rw [hset, if_pos ⟨rfl, rfl⟩], hi⟩

/-- A coercion to integers and reading an integer agree on everything but floats beyond `± 2 ^ 63`,
which the one cuts to the bound and the other refuses.  An integer that is read is that of the
number, unless the number is `2 ^ 63`; one that is written is, unless the number is beyond the
integers of 64 bits. -/
theorem integers_of_floats (s : Scalar) :
    (∀ (kind : ScalarKind) (make : Int64 → Scalar), kind.Integral make →
      (s.coerce? kind = s.integer?.map make ↔
        ∀ x q, s = .float x → toRat? x = some q → |q| ≤ 2 ^ 63)) ∧
    ∀ (x : Float) (q : ℚ), s = .float x → toRat? x = some q →
      (2 ^ 63 < |q| → s.integer? = none ∧
        ∀ (kind : ScalarKind) (make : Int64 → Scalar), kind.Integral make →
          s.coerce? kind = some (make (bound q))) ∧
      (∀ i, s.integer? = some i → (|q - i.toInt| < 1 / 2 ^ 52 ↔ q ≠ 2 ^ 63)) ∧
      ∀ (scene scene' : Scene) (node : NodeId) (attr : String) (old : Scalar) (input : Option Plug)
        (make : Int64 → Scalar), scene.slot? node attr = some ⟨.scalar old, input⟩ →
        old.kind.Integral make → scene.set node attr (.scalar s) = .ok scene' →
        ∃ i, scene'.slot? node attr = some ⟨.scalar (make i), none⟩ ∧
          if -2 ^ 63 ≤ q ∧ q < 2 ^ 63 then |q - i.toInt| < 1 / 2 ^ 52 else i = bound q := by
  refine ⟨fun kind make hkind => ?_, ?_⟩
  · rw [hkind.coerce?_eq, (Option.map_injective hkind.injective).eq_iff]
    exact s.cutInteger?_eq_iff
  rintro x q rfl hx
  refine ⟨?_, ?_, ?_⟩
  · intro hq
    refine ⟨(Scalar.wholeNumber?_eq hx).trans (if_neg (not_le.mpr hq)), fun kind make hkind => ?_⟩
    have hcut := Scalar.saturated?_of_beyond hx (beyond_of_lt_abs hq)
    exact (hkind.coerce?_eq _).trans (congrArg (Option.map make) hcut)
  · intro i hi
    have hread : Scalar.wholeNumber? x = some i := hi
    rw [Scalar.wholeNumber?_eq hx] at hread
    split at hread
    next hq =>
      obtain ⟨hlow, hhigh⟩ := abs_le.mp hq
      by_cases hbound : q = 2 ^ 63
      · -- the largest integer is one below
        rw [Scalar.saturated?_of_beyond hx (.inr hbound.ge)] at hread
        obtain rfl := Option.some.inj hread
        have hmax : bound q = Int64.maxValue := if_neg (by rw [hbound]; norm_num)
        rw [hmax, Int64.toInt_maxValue, hbound]
        norm_num
      · have hnear := Scalar.saturated?_of_within hx hread hlow (lt_of_le_of_ne hhigh hbound)
        exact iff_of_true hnear hbound
    next => cases hread
  · intro scene scene' node attr old input make hslot hkind hset
    obtain ⟨i, hnew, hsaturated⟩ := Scene.slot?_set_float hslot hkind hset
    refine ⟨i, hnew, ?_⟩
    split
    next hwithin => exact Scalar.saturated?_of_within hx hsaturated hwithin.1 hwithin.2
    next hbeyond =>
      rw [not_and_or, not_le, not_lt] at hbeyond
      exact Option.some.inj (hsaturated.symm.trans (Scalar.saturated?_of_beyond hx hbeyond))

/-- A lamp with a number of samples. -/
def sampledLamp : Scene where
  schemas := {}
  nodes := .ofPairs [(.ofNat 1, ⟨.ofNat 1, "lamp", none, "key",
    .ofPairs [("samples", ⟨.int 4, none⟩)], .empty⟩)]
  roots := []

theorem toRat?_powers : toRat? 9223372036854775808.0 = some (2 ^ 63) ∧
    toRat? 18446744073709551616.0 = some (2 ^ 64) := by
  have hsmall : Dyadic.ofFloat? 9223372036854775808.0 = some ⟨false, 2 ^ 52, 11⟩ := by
    decide +kernel
  have hlarge : Dyadic.ofFloat? 18446744073709551616.0 = some ⟨false, 2 ^ 52, 12⟩ := by
    decide +kernel
  rw [toRat?, toRat?, hsmall, hlarge]
  constructor <;> norm_num [Dyadic.toRat, Dyadic.signed]

/-- A number beyond the integers of 64 bits is stored as the largest of them. -/
theorem sampledLamp_samples : ∃ scene, sampledLamp.set (.ofNat 1) "samples"
    (.float 18446744073709551616.0) = .ok scene ∧
      scene.slot? (.ofNat 1) "samples" = some ⟨.int Int64.maxValue, none⟩ := by
  obtain ⟨scene, hset⟩ : ∃ scene, sampledLamp.set (.ofNat 1) "samples"
      (.float 18446744073709551616.0) = .ok scene := ⟨_, rfl⟩
  obtain ⟨_, hfloats⟩ := integers_of_floats (.float 18446744073709551616.0)
  obtain ⟨_, _, hwritten⟩ := hfloats _ _ rfl toRat?_powers.2
  obtain ⟨i, hslot, hif⟩ := hwritten sampledLamp scene (.ofNat 1) "samples" (.int 4) none .int
    (by decide +kernel) .int hset
  rw [if_neg (by norm_num)] at hif
  have hmax : bound (2 ^ 64) = Int64.maxValue := if_neg (by norm_num)
  rw [hif, hmax] at hslot
  exact ⟨scene, hset, hslot⟩

/-- What is refused when it is read is cut when it is coerced; and what is read of `2 ^ 63` is less
by one. -/
theorem powers_misread :
    (Scalar.float 18446744073709551616.0).integer? = none ∧
      (Scalar.float 18446744073709551616.0).coerce? .int = some (.int Int64.maxValue) ∧
      toRat? 9223372036854775808.0 = some (2 ^ 63) ∧
      (Scalar.float 9223372036854775808.0).integer? = some Int64.maxValue ∧
      ¬ |(2 ^ 63 : ℚ) - Int64.maxValue.toInt| < 1 / 2 ^ 52 := by
  refine ⟨by decide +kernel, by decide +kernel, toRat?_powers.1, by decide +kernel, ?_⟩
  rw [Int64.toInt_maxValue]
  norm_num

end ShaderMigration
