import ConfigTree.Proofs.Binary.Code
import Mathlib.Algebra.Order.Ring.Int

/-!
# Integers as doubles

A double has fifty-three bits, so that an integer beyond them is rounded. How far rounding can move
an integer at the ends of the range of 64-bit integers is settled here: one that is too large stays
too large (`rangeCode_le_nearest`), and it becomes the first number out of range only from nearby
(`nearest_eq_rangeCode_iff`).
-/

namespace ConfigTree.Binary

namespace Layout

theorem div_le_roundHalfEven (num den : Nat) : num / den ≤ roundHalfEven num den := by
  simp only [roundHalfEven]
  split
  · exact Nat.le_refl _
  · split <;> omega

/-- An integer with no fewer bits than a mantissa is rounded at the place of its last bits. -/
theorem exponentFor_one {L : Layout} {n k : Nat} (bits : n.log2 = L.fractionBits + k)
    (pos : n ≠ 0) (least : L.minExponent ≤ 0) : L.exponentFor n 1 = (k : Int) := by
  have low : 2 ^ (L.fractionBits + k) ≤ n := bits ▸ Nat.log2_self_le pos
  have guess : (n.log2 : Int) - (Nat.log2 1 : Nat) - L.fractionBits - 1 = k - 1 := by
    have one : Nat.log2 1 = 0 := rfl
    omega
  simp only [exponentFor, scale, guess]
  have fits : ¬n * Nat.pow 2 (-((k : Int) - 1)).toNat <
      1 * Nat.pow 2 ((k : Int) - 1).toNat * Nat.pow 2 (L.fractionBits + 1) := by
    cases k with
    | zero =>
      show ¬n * 2 ^ 1 < 1 * 2 ^ 0 * 2 ^ (L.fractionBits + 1)
      rw [Nat.add_zero] at low
      rw [Nat.pow_succ]
      omega
    | succ k =>
      have here : ((k + 1 : Nat) : Int) - 1 = k := by omega
      have shift : (-(k : Int)).toNat = 0 := by omega
      rw [here, shift, Int.toNat_natCast]
      show ¬n * 2 ^ 0 < 1 * 2 ^ k * 2 ^ (L.fractionBits + 1)
      rw [Nat.one_mul, ← Nat.pow_add, Nat.pow_zero, Nat.mul_one, Nat.not_lt]
      have same : k + (L.fractionBits + 1) = L.fractionBits + (k + 1) := by omega
      rw [same]
      exact low
  rw [if_neg fits]
  omega

theorem nearest_double {n k : Nat} (bits : n.log2 = 52 + k) (pos : n ≠ 0) :
    double.nearest n 1 =
      min double.infinityCode ((k + 1074) * 2 ^ 52 + roundHalfEven n (2 ^ k)) := by
  have place : double.exponentFor n 1 = (k : Int) := exponentFor_one bits pos (by decide)
  have least : double.minExponent = -1074 := rfl
  have shift : (-(k : Int)).toNat = 0 := by omega
  have field : ((k : Int) - -1074).toNat = k + 1074 := by omega
  rw [nearest, if_neg pos, place]
  simp only [scale, least, shift, field, Int.toNat_natCast]
  show min _ ((k + 1074) * 2 ^ 52 + roundHalfEven (n * 2 ^ 0) (1 * 2 ^ k)) = _
  rw [Nat.pow_zero, Nat.mul_one, Nat.one_mul]

/-- The code of the double `2 ^ 63`. -/
def rangeCode : Nat :=
  1086 * 2 ^ 52

theorem log2_eq {n : Nat} (h : 2 ^ 63 ≤ n) : ∃ k, n.log2 = 52 + (11 + k) ∧ 2 ^ (63 + k) ≤ n := by
  have pos : n ≠ 0 := by omega
  have low : 63 ≤ n.log2 := (Nat.le_log2 pos).2 h
  obtain ⟨k, bits⟩ := Nat.exists_eq_add_of_le low
  refine ⟨k, by omega, ?_⟩
  rw [← bits]
  exact Nat.log2_self_le pos

/-- An integer from `2 ^ 63` on is not rounded below it. -/
theorem rangeCode_le_nearest {n : Nat} (h : 2 ^ 63 ≤ n) : rangeCode ≤ double.nearest n 1 := by
  have pos : n ≠ 0 := by omega
  obtain ⟨k, bits, low⟩ := log2_eq h
  have infinity : double.infinityCode = 2047 * 2 ^ 52 := rfl
  rw [nearest_double bits pos, infinity, rangeCode]
  have quotient : 2 ^ 52 ≤ n / 2 ^ (11 + k) := by
    rw [Nat.le_div_iff_mul_le (Nat.pow_pos (by decide)), ← Nat.pow_add]
    have same : 52 + (11 + k) = 63 + k := by omega
    rw [same]
    exact low
  have rounded := div_le_roundHalfEven n (2 ^ (11 + k))
  omega

/-- Only the integers up to half the distance to the next double are rounded to `2 ^ 63`. -/
theorem nearest_eq_rangeCode_iff {n : Nat} (h : 2 ^ 63 ≤ n) :
    double.nearest n 1 = rangeCode ↔ n ≤ 2 ^ 63 + 2 ^ 10 := by
  have pos : n ≠ 0 := by omega
  obtain ⟨k, bits, low⟩ := log2_eq h
  have infinity : double.infinityCode = 2047 * 2 ^ 52 := rfl
  rw [nearest_double bits pos, infinity, rangeCode]
  cases k with
  | zero =>
    have high : n < 2 ^ 64 := (Nat.log2_lt pos).1 (by omega)
    simp only [roundHalfEven]
    split
    · omega
    · split <;> omega
  | succ k =>
    have quotient : 2 ^ 52 ≤ n / 2 ^ (11 + (k + 1)) := by
      rw [Nat.le_div_iff_mul_le (Nat.pow_pos (by decide)), ← Nat.pow_add]
      have same : 52 + (11 + (k + 1)) = 63 + (k + 1) := by omega
      rw [same]
      exact low
    have rounded := div_le_roundHalfEven n (2 ^ (11 + (k + 1)))
    have far : 2 ^ 64 ≤ n := Nat.le_trans (Nat.pow_le_pow_right (by decide) (by omega)) low
    omega

theorem mantissa_of_normal {code : Nat} (normal : 2 ^ 52 ≤ code) :
    double.mantissa code = 2 ^ 52 + code % 2 ^ 52 ∧
      double.minExponent + double.shift code = (code / 2 ^ 52 : Nat) - 1075 := by
  have least : double.minExponent = -1074 := rfl
  have width : double.fractionBits = 52 := rfl
  rw [mantissa, shift, width, least, Nat.pow_eq]
  omega

end Layout

namespace Double

/-- The integer that a code of a double from `2 ^ 52` on stands for. -/
def integerOf (code : Nat) : Nat :=
  (2 ^ 52 + code % 2 ^ 52) * 2 ^ (code / 2 ^ 52 - 1075)

/-- From `2 ^ 52` on all doubles are integers. -/
theorem toInt?_ofCode {code : Nat} (integral : 1075 * 2 ^ 52 ≤ code)
    (finite : code < Layout.double.infinityCode) (negative : Bool) :
    (ofCode negative code).toInt? =
      some (if negative then -(integerOf code : Int) else integerOf code) := by
  have field : ((code / 2 ^ 52 : Nat) : Int) - 1075 = (code / 2 ^ 52 - 1075 : Nat) := by omega
  have shift : (-((code / 2 ^ 52 - 1075 : Nat) : Int)).toNat = 0 := by omega
  have normal : 2 ^ 52 ≤ code := by omega
  obtain ⟨mantissa, exponent⟩ := Layout.mantissa_of_normal normal
  rw [toInt?, value_ofCode finite, mantissa, exponent]
  simp only [field, shift, Int.toNat_natCast, Nat.pow_eq, Nat.pow_zero, Nat.mod_one, Nat.div_one,
    if_true, integerOf]

theorem integerOf_rangeCode : integerOf Layout.rangeCode = 2 ^ 63 := by
  decide

/-- Codes beyond that of `2 ^ 63` stand for larger integers. -/
theorem lt_integerOf {code : Nat} (h : Layout.rangeCode < code) : 2 ^ 63 < integerOf code := by
  rw [Layout.rangeCode] at h
  by_cases field : code / 2 ^ 52 = 1086
  · rw [integerOf, field]
    omega
  · have scale : 2 ^ 12 ≤ 2 ^ (code / 2 ^ 52 - 1075) := Nat.pow_le_pow_right (by decide) (by omega)
    have least : 2 ^ 52 * 2 ^ 12 ≤ integerOf code := Nat.mul_le_mul (by omega) scale
    omega

/-- An integer beyond the range is read as its nearest double. -/
theorem ofNumeral_integer {n : Nat} (pos : n ≠ 0) (negative : Bool) :
    ofNumeral ⟨negative, n, 0⟩ = ofCode negative (Layout.double.nearest n 1) := by
  have above : ¬Layout.decimalCeiling < 0 := by decide
  have floor : ¬(0 : Int) + (n.log2 : Nat) < Layout.decimalFloor := by
    rw [Layout.decimalFloor]
    omega
  simp only [ofNumeral, Layout.nearestNumeral, if_neg pos, if_neg above, if_neg floor]
  show ofCode negative (Layout.double.nearest (n * 10 ^ 0) (10 ^ 0)) = _
  rw [Nat.pow_zero, Nat.mul_one]

end Double

end ConfigTree.Binary
