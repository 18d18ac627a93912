import ConfigTree.Decimal.Shortest

/-!
# Spellings of floating-point numbers

A `Style` says how a shortest decimal is laid out: in which range of exponents it is written
positionally, whether an exponent carries a plus sign, and how the numbers that are not finite
are spelled. Integral numbers keep one zero after the point.
-/

namespace ConfigTree.Decimal

open Binary (Layout Value)

/-- The choices that a spelling of floating-point numbers makes. -/
structure Style where
  /-- The least decimal exponent that is written positionally. -/
  lowest : Int
  /-- The first decimal exponent that is too large to be written positionally. -/
  highest : Int
  /-- Whether an exponent that is not negative carries a plus sign. -/
  plus : Bool
  /-- Which of two equally near shortest decimals is written. -/
  tie : Tie
  nan : String
  infinity : String
  deriving DecidableEq, Repr

namespace Style

/-- The digits `ds` with the point after the first `n + 1` of them. -/
def positional (ds : List Char) (n : Int) : List Char :=
  if n < 0 then '0' :: '.' :: (List.replicate (-n - 1).toNat '0' ++ ds)
  else
    let whole := n.toNat + 1
    if ds.length ≤ whole then ds ++ List.replicate (whole - ds.length) '0' ++ ['.', '0']
    else ds.take whole ++ '.' :: ds.drop whole

/-- The digits `ds` with the point after the first of them and the exponent `n` behind. -/
def scientific (plus : Bool) (ds : List Char) (n : Int) : List Char :=
  let fraction := match ds.drop 1 with
    | [] => []
    | rest => '.' :: rest
  let sign := if plus && 0 ≤ n then ['+'] else []
  ds.take 1 ++ fraction ++ 'e' :: (sign ++ signedDigits n)

/-- The text of a finite number that is not zero and carries no sign. -/
def magnitude (style : Style) (L : Layout) (mantissa : Nat) (exponent : Int) : List Char :=
  let point := shortest L style.tie mantissa exponent
  let ds := digits point.significand
  let n := point.exponent + ds.length - 1
  if style.lowest ≤ n && n < style.highest then positional ds n
  else scientific style.plus ds n

/-- The text of the number that a floating-point word of layout `L` means. -/
def write (style : Style) (L : Layout) : Value → List Char
  | .nan => style.nan.toList
  | .infinite negative => (if negative then ['-'] else []) ++ style.infinity.toList
  | .finite negative mantissa exponent =>
    (if negative then ['-'] else []) ++
      (if mantissa = 0 then ['0', '.', '0'] else style.magnitude L mantissa exponent)

end Style

/-- The plain spelling of a floating-point number: positional from `0.0001` up to `1e16`. -/
def plainStyle : Style :=
  { lowest := -4, highest := 16, plus := false, tie := .up, nan := "NaN", infinity := "inf" }

end ConfigTree.Decimal
