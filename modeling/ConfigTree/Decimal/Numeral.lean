import ConfigTree.Decimal.Digits

/-!
# Decimal numerals

A `Numeral` is a signed decimal number `significand * 10 ^ exponent`. `Numeral.read?` accepts
digits with an optional point and an optional exponent, `Numeral.isPlain` the stricter texts
that have no leading zeros and digits on both sides of a point.
-/

namespace ConfigTree.Decimal

/-- A decimal number with its sign apart, so that a negative zero keeps it. -/
structure Numeral where
  negative : Bool
  significand : Nat
  exponent : Int
  deriving DecidableEq, Repr

namespace Numeral

/-- Splits off a leading sign; the flag says whether it is a minus. -/
def takeSign : List Char → Bool × List Char
  | '-' :: cs => (true, cs)
  | '+' :: cs => (false, cs)
  | cs => (false, cs)

/-- Reads an exponent part that fills the whole text: nothing, or `e` and an integer. -/
def exponent? : List Char → Option Int
  | [] => some 0
  | 'e' :: cs => integer? cs
  | 'E' :: cs => integer? cs
  | _ => none

/-- Splits off a point and the digits that follow it; without a point both are empty. -/
def takeFraction : List Char → List Char × List Char
  | '.' :: cs => (cs.takeWhile Char.isDigit, cs.dropWhile Char.isDigit)
  | cs => ([], cs)

/-- Reads an unsigned numeral; digits must stand on at least one side of the point. -/
def unsigned? (negative : Bool) (cs : List Char) : Option Numeral :=
  let whole := cs.takeWhile Char.isDigit
  let (fraction, rest) := takeFraction (cs.dropWhile Char.isDigit)
  if whole.isEmpty && fraction.isEmpty then none
  else (exponent? rest).map fun e =>
    { negative, significand := value (whole ++ fraction), exponent := e - fraction.length }

/-- Reads a numeral with an optional sign. -/
def read? (cs : List Char) : Option Numeral :=
  let (negative, rest) := takeSign cs
  unsigned? negative rest

/-- No leading zero: the single digit zero, or digits that begin with another one. -/
def isCanonicalWhole : List Char → Bool
  | [] => false
  | ['0'] => true
  | c :: _ => c != '0'

/-- What may follow the whole part of a plain numeral: a point with digits, then an exponent. -/
def isPlainTail : List Char → Bool
  | '.' :: cs =>
    !(cs.takeWhile Char.isDigit).isEmpty && (exponent? (cs.dropWhile Char.isDigit)).isSome
  | cs => (exponent? cs).isSome

/-- A numeral without a sign, a leading zero or a bare point. -/
def isPlainUnsigned (cs : List Char) : Bool :=
  isCanonicalWhole (cs.takeWhile Char.isDigit) && isPlainTail (cs.dropWhile Char.isDigit)

/-- A plain numeral, with a minus sign or none. -/
def isPlain : List Char → Bool
  | '-' :: cs => isPlainUnsigned cs
  | cs => isPlainUnsigned cs

end Numeral

end ConfigTree.Decimal
