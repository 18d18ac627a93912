/-!
# Binary floating-point numbers

A `Layout` fixes how many bits of a word hold the fraction and the exponent of a number.
`Layout.decode` gives the exact meaning of a word and `Layout.nearest` the code of the number
nearest to a fraction, with ties to the even code. `Double` and `Single` are the words of the
two usual layouts.
-/

namespace ConfigTree.Binary

/-- The exact meaning of a floating-point word; a finite one is `mantissa * 2 ^ exponent`. -/
inductive Value where
  | nan
  | infinite (negative : Bool)
  | finite (negative : Bool) (mantissa : Nat) (exponent : Int)
  deriving DecidableEq, Repr

/-- The widths of the fields of a floating-point word below its sign bit. -/
structure Layout where
  fractionBits : Nat
  exponentBits : Nat
  deriving DecidableEq, Repr

namespace Layout

/-- Eleven bits of exponent and fifty-two of fraction. -/
def double : Layout := ⟨52, 11⟩

/-- Eight bits of exponent and twenty-three of fraction. -/
def single : Layout := ⟨23, 8⟩

/-- The exponent of the least positive number. -/
def minExponent (L : Layout) : Int :=
  2 - (Nat.pow 2 (L.exponentBits - 1) : Int) - L.fractionBits

/-- The code of infinity: an exponent field of ones above an empty fraction. -/
def infinityCode (L : Layout) : Nat :=
  (Nat.pow 2 L.exponentBits - 1) * Nat.pow 2 L.fractionBits

/-- The weight of the sign bit. -/
def signWeight (L : Layout) : Nat :=
  Nat.pow 2 (L.fractionBits + L.exponentBits)

/-- The meaning of a word. -/
def decode (L : Layout) (word : Nat) : Value :=
  let negative := word / L.signWeight % 2 == 1
  let code := word % L.signWeight
  let fraction := code % Nat.pow 2 L.fractionBits
  let field := code / Nat.pow 2 L.fractionBits
  if L.infinityCode < code then .nan
  else if code = L.infinityCode then .infinite negative
  else if field = 0 then .finite negative fraction L.minExponent
  else .finite negative (Nat.pow 2 L.fractionBits + fraction) (L.minExponent + field - 1)

/-- The natural number nearest to `num / den`, the even one of two. -/
def roundHalfEven (num den : Nat) : Nat :=
  let q := num / den
  let r := num % den
  if 2 * r < den then q
  else if den < 2 * r then q + 1
  else q + q % 2

/-- The number `num / den / 2 ^ e` as a fraction. -/
def scale (num den : Nat) (e : Int) : Nat × Nat :=
  (num * Nat.pow 2 (-e).toNat, den * Nat.pow 2 e.toNat)

/-- The exponent at which `num / den` is rounded: its quotient there has as many bits as a
mantissa, unless that exponent is below the least one. -/
def exponentFor (L : Layout) (num den : Nat) : Int :=
  let e : Int := (num.log2 : Int) - den.log2 - L.fractionBits - 1
  let (n, d) := scale num den e
  max L.minExponent (if n < d * Nat.pow 2 (L.fractionBits + 1) then e else e + 1)

/-- The code of the number nearest to `num / den`, ties to the even code. A mantissa that is
rounded up to the next power of two carries into the exponent field. -/
def nearest (L : Layout) (num den : Nat) : Nat :=
  if num = 0 then 0
  else
    let e := L.exponentFor num den
    let (n, d) := scale num den e
    min L.infinityCode
      ((e - L.minExponent).toNat * Nat.pow 2 L.fractionBits + roundHalfEven n d)

/-- Adds the sign bit to a code. -/
def withSign (L : Layout) (negative : Bool) (code : Nat) : Nat :=
  if negative then L.signWeight + code else code

end Layout

/-- A double-precision number, identified with its word. -/
structure Double where
  bits : UInt64
  deriving DecidableEq, Repr, Inhabited

/-- A single-precision number, identified with its word. -/
structure Single where
  bits : UInt32
  deriving DecidableEq, Repr, Inhabited

end ConfigTree.Binary
