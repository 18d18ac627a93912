import ConfigTree.Binary.Basic
import ConfigTree.Decimal.Numeral

/-!
# Floating-point arithmetic

The operations that readers need, each defined as the number nearest to an exact result:
conversion from integers, fractions and numerals, product, quotient, and narrowing of doubles to
single precision. `Double.toInt?` is the exact integer value of a double that has one.
-/

namespace ConfigTree.Binary

open Decimal (Numeral)

/-- Beyond this power of ten every numeral is infinite. -/
def Layout.decimalCeiling : Int := 310

/-- Below this power of ten every numeral is zero. -/
def Layout.decimalFloor : Int := -400

/-- The code of the number nearest to a numeral without its sign. Powers of ten that no number
can show are not computed. -/
def Layout.nearestNumeral (L : Layout) (x : Numeral) : Nat :=
  if x.significand = 0 then 0
  else if decimalCeiling < x.exponent then L.infinityCode
  else if x.exponent + x.significand.log2 < decimalFloor then 0
  else L.nearest (x.significand * Nat.pow 10 x.exponent.toNat) (Nat.pow 10 (-x.exponent).toNat)

namespace Single

/-- The meaning of a single. -/
def value (x : Single) : Value :=
  Layout.single.decode x.bits.toNat

/-- The single with a given sign and code. -/
def ofCode (negative : Bool) (code : Nat) : Single :=
  ⟨.ofNat (Layout.single.withSign negative code)⟩

/-- The infinity of a given sign. -/
def infinity (negative : Bool) : Single :=
  ofCode negative Layout.single.infinityCode

/-- The quiet not-a-number. -/
def nan : Single :=
  ofCode false (Layout.single.infinityCode + 0x400000)

/-- The single nearest to a fraction. -/
def ofFraction (negative : Bool) (num den : Nat) : Single :=
  ofCode negative (Layout.single.nearest num den)

/-- The single nearest to a numeral. -/
def ofNumeral (x : Numeral) : Single :=
  ofCode x.negative (Layout.single.nearestNumeral x)

end Single

namespace Double

/-- The meaning of a double. -/
def value (x : Double) : Value :=
  Layout.double.decode x.bits.toNat

/-- The double with a given sign and code. -/
def ofCode (negative : Bool) (code : Nat) : Double :=
  ⟨.ofNat (Layout.double.withSign negative code)⟩

/-- The infinity of a given sign. -/
def infinity (negative : Bool) : Double :=
  ofCode negative Layout.double.infinityCode

/-- The quiet not-a-number. -/
def nan : Double :=
  ofCode false (Layout.double.infinityCode + 0x8000000000000)

/-- The zero of a given sign. -/
def zero (negative : Bool) : Double :=
  ofCode negative 0

/-- The double nearest to a fraction. -/
def ofFraction (negative : Bool) (num den : Nat) : Double :=
  ofCode negative (Layout.double.nearest num den)

/-- The double nearest to an integer. -/
def ofInt (z : Int) : Double :=
  ofFraction (z < 0) z.natAbs 1

/-- The double nearest to a numeral. -/
def ofNumeral (x : Numeral) : Double :=
  ofCode x.negative (Layout.double.nearestNumeral x)

/-- Neither infinite nor a not-a-number. -/
def isFinite (x : Double) : Bool :=
  match x.value with
  | .finite .. => true
  | _ => false

/-- Whether the word is a not-a-number. -/
def isNaN (x : Double) : Bool :=
  x.value == .nan

/-- Numeric equality: the two zeros are equal, and a not-a-number equals nothing. -/
def same (x y : Double) : Bool :=
  match x.value, y.value with
  | .nan, _ => false
  | _, .nan => false
  | .finite _ 0 _, .finite _ 0 _ => true
  | _, _ => x == y

/-- The same magnitude with the other sign. -/
def neg (x : Double) : Double :=
  ⟨x.bits ^^^ 0x8000000000000000⟩

/-- The product of two finite doubles, rounded; of others, not a number. -/
def mul (x y : Double) : Double :=
  match x.value, y.value with
  | .finite s m e, .finite t n f =>
    ofFraction (s != t) (m * n * Nat.pow 2 (e + f).toNat) (Nat.pow 2 (-(e + f)).toNat)
  | _, _ => nan

/-- The quotient of two finite doubles, rounded, for a nonzero divisor; of others, not a
number. -/
def div (x y : Double) : Double :=
  match x.value, y.value with
  | .finite s m e, .finite t n f =>
    if n = 0 then nan
    else ofFraction (s != t) (m * Nat.pow 2 (e - f).toNat) (n * Nat.pow 2 (f - e).toNat)
  | _, _ => nan

/-- The integer that a double equals exactly, if there is one. -/
def toInt? (x : Double) : Option Int :=
  match x.value with
  | .finite negative m e =>
    let (num, den) := (m * Nat.pow 2 e.toNat, Nat.pow 2 (-e).toNat)
    if num % den = 0 then
      let n : Int := (num / den : Nat)
      some (if negative then -n else n)
    else none
  | _ => none

/-- The single nearest to a double. -/
def toSingle (x : Double) : Single :=
  match x.value with
  | .nan => .nan
  | .infinite negative => .infinity negative
  | .finite negative m e => .ofFraction negative (m * Nat.pow 2 e.toNat) (Nat.pow 2 (-e).toNat)

end Double

end ConfigTree.Binary
