import ConfigTree.Proofs.Binary.Exact
import ConfigTree.Proofs.Tree.IntegerText
import Mathlib.Algebra.Order.Ring.Cast
import Mathlib.Data.Int.Cast.Lemmas

/-!
# Numbers as integers

A number reads as an integer when it is that integer exactly, in the range of 64-bit integers and in
that of the type that reads it (`read_number_iff`). Of a double it is enough to know that it is
whole, not below the double at the lower end of the range, and below the one at the upper end, which
is rounded up to `2 ^ 63`: cut to 64 bits it is then the integer (`Number.toInt?_eq_cut?`).
-/

namespace ConfigTree

open Binary (Double)

namespace Number

/-- The fraction that a number is, unless it is an infinity or no number. -/
def fraction? : Number → Option ℚ
  | .int i => some i.toInt
  | .float x => x.fraction?

/-- A number cut to a 64-bit integer, if it is a whole one between the doubles nearest to the ends
of the range. -/
def cut? : Number → Option Int64
  | .int i => some i
  | .float x =>
    if x.isWhole && (Double.ofInt Int64.minValue.toInt).le x &&
        x.lt (Double.ofInt Int64.maxValue.toInt) then
      some x.toInt64
    else none

theorem fraction?_least :
    (Double.ofInt Int64.minValue.toInt).fraction? = some ((-2 ^ 63 : Int) : ℚ) :=
  Double.toInt?_eq_some_iff.1 (by decide)

/-- The greatest integer of the range is rounded up, out of the range. -/
theorem fraction?_greatest :
    (Double.ofInt Int64.maxValue.toInt).fraction? = some ((2 ^ 63 : Int) : ℚ) :=
  Double.toInt?_eq_some_iff.1 (by decide)

/-- Between the doubles at the ends of the range lie the integers of the range, and no others. -/
theorem cut?_of_fraction? {x : Double} {z : Int} (h : x.fraction? = some (z : ℚ)) :
    cut? (.float x) = if InInt64 z then some (.ofInt z) else none := by
  have whole : x.isWhole = true := Double.isWhole_iff.2 ⟨z, h⟩
  have low : (Double.ofInt Int64.minValue.toInt).le x = true ↔ -2 ^ 63 ≤ z :=
    (Double.le_iff fraction?_least h).trans Int.cast_le
  have high : x.lt (Double.ofInt Int64.maxValue.toInt) = true ↔ z < 2 ^ 63 :=
    (Double.lt_iff h fraction?_greatest).trans Int.cast_lt
  have bounds : (x.isWhole && (Double.ofInt Int64.minValue.toInt).le x &&
      x.lt (Double.ofInt Int64.maxValue.toInt)) = true ↔ InInt64 z := by
    rw [Bool.and_eq_true, Bool.and_eq_true, low, high, and_iff_right whole, InInt64]
  by_cases inside : InInt64 z
  · rw [if_pos inside, cut?, if_pos (bounds.2 inside),
      Double.toInt64_of_fraction? h inside.1 inside.2]
  · rw [if_neg inside, cut?, if_neg (mt bounds.1 inside)]

/-- Comparing and cutting gives the integer that a number equals. -/
theorem toInt?_eq_cut? (n : Number) : n.toInt? = n.cut?.map Int64.toInt := by
  cases n with
  | int i => rfl
  | float x =>
    by_cases whole : x.isWhole = true
    · obtain ⟨z, equal⟩ := Double.isWhole_iff.1 whole
      rw [toInt?_float (Double.toInt?_eq_some_iff.2 equal), cut?_of_fraction? equal]
      by_cases inside : InInt64 z
      · rw [if_pos inside, if_pos inside, Option.map_some,
          Int64.toInt_ofInt_of_le inside.1 inside.2]
      · rw [if_neg inside, if_neg inside]
        rfl
    · have none : x.toInt? = none := by
        rw [Option.eq_none_iff_forall_ne_some]
        intro z equal
        exact whole (Double.isWhole_iff.2 ⟨z, Double.toInt?_eq_some_iff.1 equal⟩)
      rw [toInt?, none, cut?, Bool.eq_false_iff.2 whole]
      rfl

theorem toInt?_eq_some_iff {n : Number} {z : Int} :
    n.toInt? = some z ↔ n.fraction? = some (z : ℚ) ∧ InInt64 z := by
  cases n with
  | int i =>
    have range := toInt_mem_range i
    simp only [toInt?, fraction?, Option.some_inj, Int.cast_inj]
    constructor
    · rintro rfl
      exact ⟨rfl, by rw [InInt64]; omega⟩
    · rintro ⟨rfl, -⟩
      rfl
  | float x =>
    have range : (decide (-0x8000000000000000 ≤ z) && decide (z ≤ 0x7FFFFFFFFFFFFFFF)) = true ↔
        InInt64 z := by
      rw [Bool.and_eq_true, decide_eq_true_eq, decide_eq_true_eq, InInt64]
      omega
    rw [toInt?, Option.filter_eq_some_iff, Double.toInt?_eq_some_iff, range, fraction?]

end Number

/-- A type of integers reads a number as the integer that the number is exactly, if that is one of
64 bits and of the type, and reads nothing else in it; comparing and cutting comes to the same. -/
theorem read_number_iff {lo hi : Int} (n : Number) :
    (∀ v : Bounded lo hi, Readable.read (.scalar (.number n)) = some v ↔
      n.fraction? = some (v.toInt : ℚ) ∧ InInt64 v.toInt) ∧
    (Readable.read (.scalar (.number n)) : Option (Bounded lo hi)) =
      n.cut?.bind fun i => Bounded.ofInt? i.toInt := by
  have read : (Readable.read (.scalar (.number n)) : Option (Bounded lo hi)) =
      n.toInt?.bind Bounded.ofInt? := rfl
  constructor
  · intro v
    rw [read, Option.bind_eq_some_iff, ← Number.toInt?_eq_some_iff]
    constructor
    · rintro ⟨z, equal, bounded⟩
      rw [Bounded.ofInt?_eq_some_iff.1 bounded]
      exact equal
    · intro equal
      exact ⟨v.toInt, equal, Bounded.ofInt?_eq_some_iff.2 rfl⟩
  · rw [read, Number.toInt?_eq_cut?]
    cases n.cut? <;> rfl

/-- The greatest integer of 64 bits becomes `2 ^ 63` as a double and cannot be read back; the least
one stays and can. -/
example : (Readable.read (.scalar (.number (.float (.ofInt Int64.maxValue.toInt)))) :
      Option (Bounded (-2 ^ 63) (2 ^ 63 - 1))) = none ∧
    (Readable.read (.scalar (.number (.float (.ofInt Int64.minValue.toInt)))) :
      Option (Bounded (-2 ^ 63) (2 ^ 63 - 1))) = some ⟨-2 ^ 63, by decide⟩ := by
  decide

end ConfigTree
