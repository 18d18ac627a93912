import ConfigTree.Binary.Double
import ConfigTree.Decimal.Digits

/-!
# Shortest decimals

The decimal with the fewest digits among those that round to a given binary number, and of
those with as few the one nearest to it. The reals that round to `mantissa * 2 ^ exponent` form
an interval that reaches half way to each neighbour and holds its ends when the mantissa is
even. `shortest` tries grids of powers of ten from coarse to fine and takes the first grid with
a point in the interval; only the two points beside the number can be nearest.
-/

namespace ConfigTree.Decimal

open Binary (Layout)

/-- Which of two equally near decimals is taken. -/
inductive Tie where
  | toEven
  | up
  deriving DecidableEq, Repr

/-- A decimal number `significand * 10 ^ exponent` that carries no sign. -/
structure Point where
  significand : Nat
  exponent : Int
  deriving DecidableEq, Repr

/-- The interval of the reals that round to a binary number, in multiples of `num / den`. -/
structure Rounding where
  low : Nat
  middle : Nat
  high : Nat
  closed : Bool
  num : Nat
  den : Nat
  deriving DecidableEq, Repr

namespace Rounding

/-- The interval around `mantissa * 2 ^ exponent`, in quarters of its last place. Below a power
of two the numbers lie twice as dense. -/
def around (L : Layout) (mantissa : Nat) (exponent : Int) : Rounding :=
  let narrow := mantissa == Nat.pow 2 L.fractionBits && L.minExponent < exponent
  let e := exponent - 2
  { low := 4 * mantissa - (if narrow then 1 else 2)
    middle := 4 * mantissa
    high := 4 * mantissa + 2
    closed := mantissa % 2 == 0
    num := Nat.pow 2 e.toNat
    den := Nat.pow 2 (-e).toNat }

/-- Whether the point `d / scale` lies in the interval whose ends are `low` and `high`. -/
def holds (r : Rounding) (a b d : Nat) : Bool :=
  let x := d * b
  if r.closed then r.low * a ≤ x && x ≤ r.high * a else r.low * a < x && x < r.high * a

/-- The point of the grid of step `10 ^ k` nearest to the middle, if one lies in the interval. -/
def onGrid? (r : Rounding) (tie : Tie) (k : Int) : Option Point :=
  let a := r.num * Nat.pow 10 (-k).toNat
  let b := r.den * Nat.pow 10 k.toNat
  let middle := r.middle * a
  let d := middle / b
  match r.holds a b d, r.holds a b (d + 1) with
  | false, false => none
  | true, false => some ⟨d, k⟩
  | false, true => some ⟨d + 1, k⟩
  | true, true =>
    let below := middle - d * b
    let above := (d + 1) * b - middle
    if below < above then some ⟨d, k⟩
    else if above < below then some ⟨d + 1, k⟩
    else match tie with
      | .up => some ⟨d + 1, k⟩
      | .toEven => some ⟨d + d % 2, k⟩

end Rounding

/-- The number of grids that are tried; the finest has more digits than any shortest decimal
needs. -/
def gridCount : Nat := 24

/-- A power of ten above `mantissa * 2 ^ exponent`. -/
def ceilingExponent (mantissa : Nat) (exponent : Int) : Int :=
  ((mantissa.log2 : Int) + 1 + exponent) * 30103 / 100000 + 2

/-- The shortest decimal that rounds to `mantissa * 2 ^ exponent`. -/
def shortest (L : Layout) (tie : Tie) (mantissa : Nat) (exponent : Int) : Point :=
  let r := Rounding.around L mantissa exponent
  let top := ceilingExponent mantissa exponent
  ((List.range gridCount).findSome? fun i : Nat => r.onGrid? tie (top - i)).getD ⟨0, 0⟩

end ConfigTree.Decimal
