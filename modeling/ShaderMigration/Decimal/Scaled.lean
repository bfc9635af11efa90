import ShaderMigration.Binary64

namespace ShaderMigration.Decimal

def digit? (c : Char) : Option Nat :=
  if '0' ≤ c ∧ c ≤ '9' then some (c.toNat - 48) else none

/-- The natural number that digits write; other characters count as zero. -/
def natOfDigits (cs : List Char) : Nat :=
  cs.foldl (fun n c => 10 * n + (digit? c).getD 0) 0

/-- A decimal number in its parts: sign, digits before and after the point, exponent. -/
structure Notation where
  negative : Bool
  whole : List Char
  fraction : List Char
  exponent : Int
deriving Repr

structure Significand where
  value : Nat
  scale : Int
deriving DecidableEq, Repr

namespace Significand

/-- Reads one digit before the point.  After the first digit that does not fit, all are counted. -/
def pushWhole (s : Significand) (c : Char) : Significand :=
  let grown := 10 * s.value + (digit? c).getD 0
  if s.scale = 0 ∧ grown < Nat.pow 2 64 then { s with value := grown } else { s with scale := s.scale + 1 }

/-- Reads digits after the point until one does not fit. -/
def pushFraction (s : Significand) : List Char → Significand
  | [] => s
  | c :: rest =>
    let grown := 10 * s.value + (digit? c).getD 0
    if grown < Nat.pow 2 64 then pushFraction ⟨grown, s.scale - 1⟩ rest else s

def ofNotation (n : Notation) : Significand :=
  let s := pushFraction (n.whole.foldl pushWhole ⟨0, 0⟩) n.fraction
  { s with scale := s.scale + n.exponent }

end Significand

/-- The double nearest to a power of ten up to `10 ^ 308`. -/
def powerOfTen (k : Nat) : Float := Float.ofScientific 1 false k

/-- A number times a power of ten, in one rounding step for powers up to `10 ^ 308`; none when the
result exceeds the finite doubles. -/
def scaled? (x : Float) (scale : Int) : Option Float :=
  if 0 ≤ scale then
    if x == 0.0 then some x
    else if scale ≤ 308 then
      let y := x * powerOfTen scale.toNat
      if Binary64.isFinite y then some y else none
    else none
  else
    let k := (-scale).toNat
    if k ≤ 308 then some (x / powerOfTen k)
    else if k ≤ 616 then some (x / powerOfTen 308 / powerOfTen (k - 308))
    else some 0.0

/-- The number that a notation denotes: its significand of 64 bits, rounded, times or over the rounded
power of ten.  Digits that no longer fit count as zeros before the point and are dropped after it. -/
def Notation.value? (n : Notation) : Option Float :=
  let s := Significand.ofNotation n
  (scaled? (Float.ofNat s.value) s.scale).map fun x => if n.negative then -x else x

/-- The double nearest to the number that a notation denotes, infinite when it is too large. -/
def Notation.nearest (n : Notation) : Float :=
  let digits := natOfDigits (n.whole ++ n.fraction)
  let scale := n.exponent - n.fraction.length
  let width : Int := (n.whole ++ n.fraction).length
  let x :=
    if digits = 0 then 0.0
    else if 400 < scale then 1.0 / 0.0
    else if scale + width < -400 then 0.0
    else if 0 ≤ scale then Float.ofScientific digits false scale.toNat
    else Float.ofScientific digits true (-scale).toNat
  if n.negative then -x else x

end ShaderMigration.Decimal
