import ConfigTree.Decimal.Numeral
import ConfigTree.Json.Basic

/-!
# JSON numerals

The value of a JSON numeral. An integer that fits in sixty-four bits is exact. Every other
numeral is a double that comes from at most as many leading digits as fit in sixty-four bits:
that significand is converted and then multiplied or divided by a power of ten, each step
rounded by itself. A numeral beyond the range of doubles has no value.
-/

namespace ConfigTree.Json

open Binary (Double)

/-- The parts of a numeral, each a word of digits. -/
structure Numeral where
  negative : Bool
  whole : List Char
  fraction : Option (List Char)
  /-- Whether the exponent is negative, and its digits. -/
  exponent : Option (Bool × List Char)
  deriving DecidableEq, Repr

namespace Numeral

/-- The greatest significand. -/
def ceiling : Nat := 0xFFFFFFFFFFFFFFFF

/-- The greatest exponent that is computed with. -/
def exponentCeiling : Nat := 0x7FFFFFFF

/-- Appends digits to a significand up to the first one that does not fit; the rest is left
over. -/
def accumulate (significand : Nat) : List Char → Nat × List Char
  | [] => (significand, [])
  | c :: cs =>
    let next := significand * 10 + (c.toNat - '0'.toNat)
    if next ≤ ceiling then accumulate next cs else (significand, c :: cs)

/-- The integer of a significand and a sign. A negative one below the signed range, and a zero
with a minus sign, is a double instead. -/
def integer (negative : Bool) (significand : Nat) : Numeric :=
  if !negative then .integer significand
  else if 0 < significand ∧ significand ≤ 0x8000000000000000 then .integer (-(significand : Int))
  else .double (Double.ofInt significand).neg

/-- The power of ten with a natural exponent. -/
def powerOfTen (n : Nat) : Double :=
  .ofFraction false (Nat.pow 10 n) 1

/-- The greatest exponent of a power of ten that is a double. -/
def powerCeiling : Nat := 308

/-- The double `x * 10 ^ e`, by one product or by quotients of powers in range; none if it is
infinite. -/
def scaled? (x : Double) (e : Int) : Option Double :=
  if x.same (.zero false) then some x
  else if (powerCeiling : Int) < e then none
  else if 0 ≤ e then
    let y := x.mul (powerOfTen e.toNat)
    if y.isFinite then some y else none
  else if -(powerCeiling : Int) ≤ e then some (x.div (powerOfTen (-e).toNat))
  else scaled? (x.div (powerOfTen powerCeiling)) (e + powerCeiling)
termination_by (-e).toNat
decreasing_by simp only [powerCeiling] at *; omega

/-- The value of a numeral, if it is in range. -/
def value? (n : Numeral) : Option Numeric :=
  let (significand, spilt) := accumulate 0 n.whole
  if spilt.isEmpty && n.fraction.isNone && n.exponent.isNone then
    some (integer n.negative significand)
  else
    let digits := n.fraction.getD []
    let (significand, dropped) := accumulate significand digits
    let start : Int := spilt.length - (digits.length - dropped.length : Nat)
    let (descends, power) := match n.exponent with
      | some (descends, cs) => (descends, Decimal.value cs)
      | none => (false, 0)
    let magnitude : Option Double :=
      if exponentCeiling < power then
        if significand ≠ 0 ∧ descends = false then none else some (.zero false)
      else scaled? (.ofInt significand) (if descends then start - power else start + power)
    magnitude.map fun x => .double (if n.negative then x.neg else x)

end Numeral

end ConfigTree.Json
