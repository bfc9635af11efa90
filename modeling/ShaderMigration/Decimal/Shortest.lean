import ShaderMigration.Binary64

namespace ShaderMigration.Decimal

/-- The number `digits * 10 ^ (exponent - (number of digits - 1))`: `exponent` is that of the first
digit. -/
structure Digits where
  digits : List Char
  exponent : Int
deriving DecidableEq, Repr

def natDigits (n : Nat) : List Char := Nat.toDigits 10 n

/-- The exponent `e` with `10 ^ e ≤ num / den < 10 ^ (e + 1)`, for a positive fraction. -/
def magnitude (num den : Nat) : Int :=
  if den ≤ num then ((natDigits (num / den)).length : Int) - 1
  else
    let width := (natDigits (den / num)).length
    if num * Nat.pow 10 (width - 1) = den then 1 - (width : Int) else -(width : Int)

/-- A positive fraction with the half distances to its neighbours, over one denominator. -/
structure Interval where
  value : Nat
  below : Nat
  above : Nat
  denominator : Nat
  closed : Bool

namespace Interval

/-- The reals that round to `mantissa * 2 ^ exponent`.  Below a power of two the spacing halves. -/
def ofDyadic (mantissa : Nat) (exponent : Int) : Interval :=
  let up := Nat.pow 2 exponent.toNat
  let down := Nat.pow 2 (-exponent).toNat
  let narrow := mantissa = Nat.pow 2 52 ∧ -1074 < exponent
  { value := 4 * mantissa * up
    below := if narrow then up else 2 * up
    above := 2 * up
    denominator := 4 * down
    closed := mantissa % 2 = 0 }

/-- Whether the number `n * 10 ^ scale` rounds to the value. -/
def holds (range : Interval) (n : Nat) (scale : Int) : Bool :=
  let point := n * Nat.pow 10 scale.toNat * range.denominator
  let unit := Nat.pow 10 (-scale).toNat
  let low := (range.value - range.below) * unit
  let high := (range.value + range.above) * unit
  if range.closed then decide (low ≤ point ∧ point ≤ high) else decide (low < point ∧ point < high)

/-- The neighbours of the value on the grid of multiples of `10 ^ scale`, and which of them is to be
tried first: the nearer, and of two equally near the even one. -/
def neighbours (range : Interval) (scale : Int) : List Nat :=
  let num := range.value * Nat.pow 10 (-scale).toNat
  let den := range.denominator * Nat.pow 10 scale.toNat
  let floor := num / den
  let rest := num % den
  if 2 * rest < den ∨ (2 * rest = den ∧ floor % 2 = 0) then [floor, floor + 1] else [floor + 1, floor]

def search (range : Interval) (exponent : Int) : Nat → Nat → Nat × Int
  | 0, digits => ((range.neighbours (exponent - digits)).headD 0, exponent - digits)
  | tries + 1, digits =>
    let scale := exponent - digits
    match (range.neighbours scale).find? fun n => range.holds n scale with
    | some n => (n, scale)
    | none => search range exponent tries (digits + 1)

end Interval

def dropTrailingZeros (cs : List Char) : List Char :=
  (cs.reverse.dropWhile (· == '0')).reverse

/-- The shortest digits of a positive `mantissa * 2 ^ exponent`.  For one, two, … digits the two
neighbours on that grid are tried; the first grid on which one rounds to the number wins, and of two
that do the nearer. -/
def shortest (mantissa : Nat) (exponent : Int) : Digits :=
  let range := Interval.ofDyadic mantissa exponent
  let first := magnitude range.value range.denominator
  let (n, scale) := range.search first 17 0
  let cs := natDigits n
  ⟨dropTrailingZeros cs, scale + (cs.length : Int) - 1⟩

end ShaderMigration.Decimal
