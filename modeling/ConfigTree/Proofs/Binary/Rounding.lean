import ConfigTree.Proofs.Binary.Nearest

/-!
# Numerals as doubles

A numeral is read as the double nearest to the fraction that it denotes, as long as there is one:
from half the last spacing beyond the greatest double on it is read as an infinity
(`Double.rounds_ofNumeral`). Powers of ten that no number can show are left out of the computation,
which makes no difference (`Layout.nearestNumeral_eq`).
-/

namespace ConfigTree

/-- The fraction that a numeral denotes. -/
def Decimal.Numeral.fraction (x : Numeral) : ℚ :=
  (if x.negative then -1 else 1) * (x.significand * 10 ^ x.exponent)

namespace Binary

open Decimal (Numeral)

namespace Layout

/-- The numbers of a layout lie between the powers of ten that are computed for numerals. -/
structure IsModerate (L : Layout) : Prop where
  fraction : 0 < L.fractionBits
  exponent : 2 ≤ L.exponentBits
  ceiling : 2 ^ 2 ^ (L.exponentBits - 1) ≤ 10 ^ decimalCeiling.toNat
  floor : 2 * 2 ^ (-L.minExponent).toNat ≤ 10 ^ (-decimalFloor).toNat

theorem isModerate_double : double.IsModerate := by
  constructor <;> decide +kernel

theorem isModerate_single : single.IsModerate := by
  constructor <;> decide +kernel

/-- The greatest double is `2 ^ 1024 - 2 ^ 971`, and the next power of two `2 ^ 1024`. -/
theorem overflow_double : double.overflow = 2 ^ 1024 - 2 ^ 970 := by
  rw [overflow_eq (by decide)]
  norm_num [double]

variable {L : Layout}

theorem overflow_le (h : L.IsModerate) : L.overflow ≤ 10 ^ decimalCeiling := by
  have ceiling : (2 : ℚ) ^ 2 ^ (L.exponentBits - 1) ≤ 10 ^ decimalCeiling.toNat := by
    exact_mod_cast h.ceiling
  have power : (2 : Int) ^ (L.exponentBits - 1) = (2 ^ (L.exponentBits - 1) : Nat) := by
    push_cast
    rfl
  rw [overflow_eq h.exponent, power, zpow_natCast]
  exact (sub_le_self _ (zpow_pos two_pos _).le).trans ceiling

theorem magnitude_one (L : Layout) : L.magnitude 1 = 2 ^ L.minExponent := by
  have first := L.magnitude_shifted (k := 0) (r := 1) Nat.one_le_two_pow (.inl rfl)
  rw [Nat.zero_mul, Nat.zero_add] at first
  simpa using first

theorem le_magnitude_one (h : L.IsModerate) : 2 * 10 ^ decimalFloor ≤ L.magnitude 1 := by
  have floor : 2 * (2 : ℚ) ^ (-L.minExponent).toNat ≤ 10 ^ (-decimalFloor).toNat := by
    exact_mod_cast h.floor
  have power : (10 : ℚ) ^ decimalFloor = (10 ^ (-decimalFloor).toNat)⁻¹ := rfl
  rw [magnitude_one, power]
  calc
    2 * ((10 : ℚ) ^ (-decimalFloor).toNat)⁻¹
      ≤ (2 ^ (-L.minExponent).toNat)⁻¹ := by
        rw [← div_eq_mul_inv, div_le_iff₀ (by positivity), ← div_eq_inv_mul,
          le_div_iff₀ (by positivity)]
        exact floor
    _ = 2 ^ (-((-L.minExponent).toNat : Int)) := by rw [zpow_neg, zpow_natCast]
    _ ≤ 2 ^ L.minExponent := zpow_le_zpow_right₀ one_le_two (by omega)

/-- A numeral with a small power of ten and few digits is nearer to zero than to any other number. -/
theorem lt_magnitude_one (h : L.IsModerate) {n : Nat} {e : Int}
    (small : e + n.log2 < decimalFloor) : 2 * ((n : ℚ) * 10 ^ e) < L.magnitude 1 := by
  have digits : (n : ℚ) < 10 ^ (n.log2 + 1) := by
    have digits : n < 10 ^ (n.log2 + 1) :=
      Nat.lt_log2_self.trans_le (Nat.pow_le_pow_left (by decide) _)
    exact_mod_cast digits
  calc
    2 * ((n : ℚ) * 10 ^ e) < 2 * (10 ^ (n.log2 + 1) * 10 ^ e) := by gcongr
    _ = 2 * 10 ^ ((n.log2 + 1 : Nat) + e) := by
      rw [zpow_add₀ (by norm_num), zpow_natCast]
    _ ≤ 2 * 10 ^ decimalFloor := by
      gcongr
      · norm_num
      · omega
    _ ≤ L.magnitude 1 := le_magnitude_one h

theorem quotient_eq (n : Nat) (e : Int) :
    ((n * 10 ^ e.toNat : Nat) : ℚ) / (10 ^ (-e).toNat : Nat) = n * 10 ^ e := by
  obtain ⟨k, rfl | rfl⟩ := e.eq_nat_or_neg
  · simp
  · simp [div_eq_mul_inv]

theorem infinityCode_le_of_large (h : L.IsModerate) {n code : Nat} {e : Int}
    (near : L.IsNearest (n * 10 ^ e) code) (some_digit : n ≠ 0) (large : decimalCeiling < e) :
    L.infinityCode ≤ code := by
  have significant : (1 : ℚ) ≤ n := by exact_mod_cast Nat.one_le_iff_ne_zero.2 some_digit
  rw [← not_lt, lt_infinityCode_iff h.fraction h.exponent near, not_lt]
  calc
    L.overflow ≤ 10 ^ decimalCeiling := overflow_le h
    _ ≤ 10 ^ e := zpow_le_zpow_right₀ (by norm_num) large.le
    _ ≤ n * 10 ^ e := le_mul_of_one_le_left (zpow_pos (by norm_num) _).le significant

theorem eq_zero_of_small (h : L.IsModerate) {n code : Nat} {e : Int}
    (near : L.IsNearest (n * 10 ^ e) code) (small : e + n.log2 < decimalFloor) : code = 0 := by
  have below := lt_magnitude_one h small
  have nonneg : (0 : ℚ) ≤ n * 10 ^ e := by positivity
  by_contra positive
  have least := L.strictMono_magnitude.monotone (Nat.one_le_iff_ne_zero.2 positive)
  have nearer := near.nearest 0
  rw [L.magnitude_zero, sub_zero, abs_of_nonneg nonneg, abs_of_neg (by linarith)] at nearer
  linarith

/-- The powers of ten that are left out would be rounded to infinity or to zero. -/
theorem nearestNumeral_eq (h : L.IsModerate) (x : Numeral) :
    L.nearestNumeral x =
      L.nearest (x.significand * 10 ^ x.exponent.toNat) (10 ^ (-x.exponent).toNat) := by
  have some_den : 10 ^ (-x.exponent).toNat ≠ 0 := (Nat.pow_pos (by decide)).ne'
  obtain ⟨code, near, found⟩ :=
    exists_isNearest h.fraction (x.significand * 10 ^ x.exponent.toNat) some_den
  rw [quotient_eq] at near
  simp only [nearestNumeral, Nat.pow_eq]
  split
  · next zero => rw [zero, Nat.zero_mul, nearest, if_pos rfl]
  · next some_digit =>
    split
    · next large =>
      rw [found, Nat.min_eq_left (infinityCode_le_of_large h near some_digit large)]
    · split
      · next small => rw [found, eq_zero_of_small h near small, Nat.min_zero]
      · rfl

end Layout

namespace Double

open Layout (double)

/-- What rounding makes of a fraction with a sign. -/
structure Rounds (negative : Bool) (q : ℚ) (x : Double) : Prop where
  overflow : 2 ^ 1024 - 2 ^ 970 ≤ |q| → x = infinity negative
  /-- A zero has the sign as well. -/
  finite : |q| < 2 ^ 1024 - 2 ^ 970 → ∃ m e, x.value = .finite negative m e
  nearest : ∀ p, x.fraction? = some p → ∀ (y : Double) (r : ℚ), y.fraction? = some r →
    |q - p| ≤ |q - r|
  even : ∀ p, x.fraction? = some p → ∀ (y : Double) (r : ℚ), y.fraction? = some r → r ≠ p →
    |q - p| = |q - r| → x.bits.toNat % 2 = 0

/-- A rounded fraction is a finite double below the threshold, and only there. -/
theorem Rounds.isFinite_iff {negative : Bool} {q : ℚ} {x : Double} (h : Rounds negative q x) :
    x.isFinite = true ↔ |q| < 2 ^ 1024 - 2 ^ 970 := by
  constructor
  · intro finite
    by_contra beyond
    rw [h.overflow (not_lt.1 beyond), isFinite_infinity] at finite
    cases finite
  · intro below
    obtain ⟨m, e, meaning⟩ := h.finite below
    rw [isFinite, meaning]

theorem abs_sign_mul (negative : Bool) (q : ℚ) : |(if negative then -1 else 1) * q| = |q| := by
  cases negative <;> simp

/-- A finite double is a magnitude with a sign. -/
theorem exists_magnitude {x : Double} {p : ℚ} (h : x.fraction? = some p) :
    ∃ code, |p| = double.magnitude code := by
  obtain ⟨negative, m, e, meaning, rfl⟩ := fraction?_eq_some_iff.1 h
  obtain ⟨code, -, rfl, rfl⟩ := exists_code meaning
  refine ⟨code, ?_⟩
  rw [fraction, mul_assoc, abs_sign_mul]
  exact abs_of_nonneg (double.magnitude_nonneg code)

theorem fraction?_ofCode {code : Nat} (finite : code < double.infinityCode) (negative : Bool) :
    (ofCode negative code).fraction? =
      some ((if negative then -1 else 1) * double.magnitude code) := by
  rw [fraction?, value_ofCode finite, Layout.magnitude, ← mul_assoc]
  rfl

theorem fraction?_infinity (negative : Bool) : (infinity negative).fraction? = none := by
  rw [Option.eq_none_iff_forall_ne_some]
  intro p finite
  obtain ⟨_, m, e, meaning, -⟩ := fraction?_eq_some_iff.1 finite
  have infinite := isFinite_infinity negative
  rw [isFinite, meaning] at infinite
  cases infinite

theorem mod_two_bits_ofCode {code : Nat} (finite : code < double.infinityCode) (negative : Bool) :
    (ofCode negative code).bits.toNat % 2 = code % 2 := by
  have weight : double.signWeight = 2 ^ 63 := rfl
  have rest := (bits_ofCode (Nat.le_of_lt finite) negative).2
  rw [weight] at rest
  omega

section Nearest

variable {negative : Bool} {q p r : ℚ} {code : Nat} {y : Double}

/-- No double of the other sign is nearer than the one of the same sign. -/
theorem exists_closer (nonneg : 0 ≤ q) (h : y.fraction? = some r) :
    ∃ code, |r| = double.magnitude code ∧
      |q - double.magnitude code| ≤ |(if negative then -1 else 1) * q - r| := by
  obtain ⟨code, magnitude⟩ := exists_magnitude h
  have apart := abs_abs_sub_abs_le ((if negative then -1 else 1) * q) r
  rw [abs_sign_mul, abs_of_nonneg nonneg, magnitude] at apart
  exact ⟨code, magnitude, apart⟩

/-- The double of the other sign is as near only if both are zero. -/
theorem eq_of_opposite (nonneg : 0 ≤ q) (near : double.IsNearest q code)
    (magnitude : |r| = double.magnitude code)
    (same : |q - double.magnitude code| = |(if negative then -1 else 1) * q - r|) :
    r = (if negative then -1 else 1) * double.magnitude code := by
  have positive := double.magnitude_nonneg code
  have apart : |r| = |(if negative then -1 else 1) * double.magnitude code| := by
    rw [abs_sign_mul, abs_of_nonneg positive, magnitude]
  rcases abs_eq_abs.1 apart with here | opposite
  · exact here
  · have nearer := near.nearest 0
    rw [same, opposite, sub_neg_eq_add, ← mul_add, abs_sign_mul, abs_of_nonneg (by linarith),
      double.magnitude_zero, sub_zero, abs_of_nonneg nonneg] at nearer
    have zero : double.magnitude code = 0 := by linarith
    rw [opposite, zero, mul_zero, neg_zero]

theorem rounds_of_lt (nonneg : 0 ≤ q) (near : double.IsNearest q code)
    (finite : code < double.infinityCode) :
    Rounds negative ((if negative then -1 else 1) * q) (ofCode negative code) := by
  have value := fraction?_ofCode finite negative
  have distance : |(if negative then -1 else 1) * q -
      (if negative then -1 else 1) * double.magnitude code| = |q - double.magnitude code| := by
    rw [← mul_sub, abs_sign_mul]
  constructor
  case overflow =>
    intro beyond
    have below := (Layout.lt_infinityCode_iff (by decide) (by decide) near).1 finite
    rw [Layout.overflow_double] at below
    rw [abs_sign_mul, abs_of_nonneg nonneg] at beyond
    exact absurd below (not_lt.2 beyond)
  case finite =>
    intro _
    exact ⟨_, _, value_ofCode finite negative⟩
  case nearest =>
    intro p here y r there
    obtain rfl := Option.some.inj (value.symm.trans here)
    obtain ⟨code', -, closer⟩ := exists_closer nonneg there
    rw [distance]
    exact (near.nearest code').trans closer
  case even =>
    intro p here y r there differs same
    obtain rfl := Option.some.inj (value.symm.trans here)
    obtain ⟨code', magnitude, closer⟩ := exists_closer nonneg there
    rw [distance] at same
    have as_near := le_antisymm (near.nearest code') (closer.trans same.ge)
    rw [mod_two_bits_ofCode finite]
    by_cases equal : code' = code
    · rw [equal] at magnitude
      exact absurd (eq_of_opposite nonneg near magnitude same) differs
    · exact near.even code' equal as_near

theorem rounds_of_le (nonneg : 0 ≤ q) (near : double.IsNearest q code)
    (infinite : double.infinityCode ≤ code) :
    Rounds negative ((if negative then -1 else 1) * q) (infinity negative) := by
  constructor
  case overflow => exact fun _ => rfl
  case finite =>
    intro below
    rw [abs_sign_mul, abs_of_nonneg nonneg, ← Layout.overflow_double,
      ← Layout.lt_infinityCode_iff (by decide) (by decide) near] at below
    omega
  case nearest =>
    intro p here
    rw [fraction?_infinity] at here
    cases here
  case even =>
    intro p here
    rw [fraction?_infinity] at here
    cases here

end Nearest

/-- A quotient of natural numbers is rounded correctly. -/
theorem rounds_ofFraction (negative : Bool) (num : Nat) {den : Nat} (some_den : den ≠ 0) :
    Rounds negative ((if negative then -1 else 1) * (num / den)) (ofFraction negative num den) := by
  obtain ⟨code, near, found⟩ :=
    Layout.exists_isNearest (L := double) (by decide) num some_den
  have nonneg : (0 : ℚ) ≤ num / den := by positivity
  rw [ofFraction, found]
  rcases Nat.lt_or_ge code double.infinityCode with finite | infinite
  · rw [Nat.min_eq_right (Nat.le_of_lt finite)]
    exact rounds_of_lt nonneg near finite
  · rw [Nat.min_eq_left infinite]
    exact rounds_of_le nonneg near infinite

/-- A numeral is read as the double that its fraction is rounded to. -/
theorem rounds_ofNumeral (x : Numeral) : Rounds x.negative x.fraction (ofNumeral x) := by
  have some_den : 10 ^ (-x.exponent).toNat ≠ 0 := (Nat.pow_pos (by decide)).ne'
  have rounded :=
    rounds_ofFraction x.negative (x.significand * 10 ^ x.exponent.toNat) some_den
  rw [Layout.quotient_eq] at rounded
  rw [ofNumeral, Layout.nearestNumeral_eq Layout.isModerate_double]
  exact rounded

end Double

/-- A numeral is read as the single that its fraction is rounded to. -/
theorem Single.ofNumeral_nearest (x : Numeral) : ∃ code,
    Layout.single.IsNearest (x.significand * 10 ^ x.exponent) code ∧
      ofNumeral x = ofCode x.negative (min Layout.single.infinityCode code) := by
  have some_den : 10 ^ (-x.exponent).toNat ≠ 0 := (Nat.pow_pos (by decide)).ne'
  obtain ⟨code, near, found⟩ := Layout.exists_isNearest (L := .single) (by decide)
    (x.significand * 10 ^ x.exponent.toNat) some_den
  rw [Layout.quotient_eq] at near
  refine ⟨code, near, ?_⟩
  rw [ofNumeral, Layout.nearestNumeral_eq Layout.isModerate_single, found]

end Binary

end ConfigTree
