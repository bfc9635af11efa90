namespace ShaderMigration

/-- The number `± mantissa * 2 ^ exponent`.  What is computed on these integers is not rounded. -/
structure Dyadic where
  negative : Bool
  mantissa : Nat
  exponent : Int
deriving DecidableEq, Repr

namespace Dyadic

/-- The value of a finite double; none for an infinity or a NaN. -/
def ofFloat? (x : Float) : Option Dyadic :=
  let bits := x.toBits.toNat
  let biased := bits / Nat.pow 2 52 % 2048
  let fraction := bits % Nat.pow 2 52
  let negative := decide (Nat.pow 2 63 ≤ bits)
  if biased = 2047 then none
  else if biased = 0 then some ⟨negative, fraction, -1074⟩
  else some ⟨negative, Nat.pow 2 52 + fraction, (biased : Int) - 1075⟩

def signed (d : Dyadic) (n : Nat) : Int := if d.negative then -(n : Int) else n

def denominator (d : Dyadic) : Nat := Nat.pow 2 (-d.exponent).toNat

def numerator (d : Dyadic) : Nat := d.mantissa * Nat.pow 2 d.exponent.toNat

/-- The integer part: the value with its fraction cut off. -/
def trunc (d : Dyadic) : Int := d.signed (d.numerator / d.denominator)

/-- Whether the fraction that `trunc` cuts off is below `2 ^ -52`. -/
def nearInteger (d : Dyadic) : Bool :=
  decide (d.numerator % d.denominator * Nat.pow 2 52 < d.denominator)

end Dyadic

namespace Binary64

/-- Numeric equality in which a NaN equals every NaN; the two zeros are equal. -/
def same (x y : Float) : Bool := x == y || (x.isNaN && y.isNaN)

def isFinite (x : Float) : Bool := (Dyadic.ofFloat? x).isSome

def ofInt64 (n : Int64) : Float :=
  let magnitude := (UInt64.ofNat n.toInt.natAbs).toFloat
  if n.toInt < 0 then -magnitude else magnitude

/-- The larger of two numbers: a NaN gives way to the other one, and of equal numbers the first is taken. -/
def max (x y : Float) : Float :=
  if x.isNaN then y else if x < y then y else x

def min (x y : Float) : Float :=
  if x.isNaN then y else if y < x then y else x

/-- Cuts a number to a range; a NaN stays a NaN. -/
def clamp (low high x : Float) : Float :=
  let raised := if x < low then low else x
  if high < raised then high else raised

/-- The remainder of a division by a positive integer: exact, with the sign of the dividend. -/
def remainder (x : Float) (modulus : Nat) : Float :=
  match Dyadic.ofFloat? x with
  | none => 0.0 / 0.0
  | some d =>
    if d.numerator < modulus * d.denominator then x
    else
      let rest := d.numerator % (modulus * d.denominator)
      let magnitude := Float.ofNat rest / Float.ofNat d.denominator
      if d.negative then -magnitude else magnitude

end Binary64

end ShaderMigration
