import ConfigTree.Readable
import ConfigTree.Proofs.Binary.Integer
import ConfigTree.Proofs.Decimal.Numeral

/-!
# Integers in texts

A text that spells an integer of sixty-four bits is read as that integer by every integer type that
holds it. An integer beyond that range is read as the nearest double first, and a double that large
is no integer of the range, with one exception: the integers right below the range are rounded up to
its least element (`Number.toInt?_ofText?`). To the type of the 64-bit integers, and to no narrower
one, they read as an integer that they do not spell (`read_integer_text`).
-/

namespace ConfigTree

open Binary (Double Layout)
open Decimal (SpellsInteger)

/-- The range of 64-bit integers. -/
def InInt64 (z : Int) : Prop :=
  -2 ^ 63 ≤ z ∧ z < 2 ^ 63

/-- The integers below the range of 64-bit integers whose nearest double is the least element of
that range. -/
def RoundsIntoInt64 (z : Int) : Prop :=
  -2 ^ 63 - 2 ^ 10 ≤ z ∧ z < -2 ^ 63

instance (z : Int) : Decidable (InInt64 z) :=
  inferInstanceAs (Decidable (_ ∧ _))

instance (z : Int) : Decidable (RoundsIntoInt64 z) :=
  inferInstanceAs (Decidable (_ ∧ _))

theorem int64?_of_inInt64 {z : Int} (h : InInt64 z) : int64? z = some (.ofInt z) := by
  rw [InInt64] at h
  rw [int64?, if_pos (by omega)]

theorem int64?_of_not_inInt64 {z : Int} (h : ¬InInt64 z) : int64? z = none := by
  rw [InInt64] at h
  rw [int64?, if_neg (by omega)]

namespace Number

theorem toInt?_ofInt {z : Int} (h : InInt64 z) : toInt? (.int (.ofInt z)) = some z := by
  rw [toInt?, Int64.toInt_ofInt_of_le h.1 h.2]

theorem toInt?_float {x : Double} {z : Int} (h : x.toInt? = some z) :
    toInt? (.float x) = if InInt64 z then some z else none := by
  rw [toInt?, h, Option.filter_some]
  simp only [Bool.and_eq_true, decide_eq_true_eq]
  have same : (-0x8000000000000000 ≤ z ∧ z ≤ 0x7FFFFFFFFFFFFFFF) ↔ InInt64 z := by
    rw [InInt64]
    omega
  simp only [same]

end Number

/-- A double as a number, if it is finite. -/
def Number.ofFinite? (x : Double) : Option Number :=
  if x.isFinite then some (.float x) else none

/-- Of the integers from `2 ^ 63` on, only those that are rounded to it and carry a minus sign come
back into the range of 64-bit integers. -/
theorem Number.toInt?_nearest {n : Nat} (h : 2 ^ 63 ≤ n) (negative : Bool) :
    (Number.ofFinite? (.ofCode negative (Layout.double.nearest n 1))).bind toInt? =
      if negative = true ∧ n ≤ 2 ^ 63 + 2 ^ 10 then some (-2 ^ 63) else none := by
  have low := Layout.rangeCode_le_nearest h
  have near := Layout.nearest_eq_rangeCode_iff h
  have high := Layout.nearest_le .double n 1
  have code : Layout.rangeCode = 1086 * 2 ^ 52 := rfl
  have infinity : Layout.double.infinityCode = 2047 * 2 ^ 52 := rfl
  generalize Layout.double.nearest n 1 = c at low near high
  rcases Nat.lt_or_eq_of_le high with finite | infinite
  · have value := Double.toInt?_ofCode (by omega) finite negative
    rw [ofFinite?, if_pos (Double.isFinite_ofCode finite negative), Option.bind_some,
      toInt?_float value]
    by_cases nearby : n ≤ 2 ^ 63 + 2 ^ 10
    · rw [near.2 nearby, Double.integerOf_rangeCode]
      cases negative with
      | true =>
        rw [if_pos rfl, if_pos (by decide), if_pos ⟨rfl, nearby⟩]
        rfl
      | false => rfl
    · have large : 2 ^ 63 < Double.integerOf c := Double.lt_integerOf (by omega)
      have outside :
          ¬InInt64 (if negative then -(Double.integerOf c : Int) else Double.integerOf c) := by
        rw [InInt64]
        split <;> omega
      rw [if_neg outside, if_neg fun both => nearby both.2]
  · have far : ¬(negative = true ∧ n ≤ 2 ^ 63 + 2 ^ 10) := by omega
    rw [if_neg far, infinite, ← Double.infinity, ofFinite?, Double.isFinite_infinity]
    rfl

/-- What is read in a text as an integer, if the text spells one. -/
theorem Number.toInt?_ofText? {cs : List Char} {z : Int} (h : SpellsInteger cs z) :
    (Number.ofText? cs).bind Number.toInt? =
      if InInt64 z then some z else if RoundsIntoInt64 z then some (-2 ^ 63) else none := by
  rw [Number.ofText?, Decimal.integer?_eq_some_iff.2 h, Option.bind_some]
  by_cases inside : InInt64 z
  · rw [int64?_of_inInt64 inside, if_pos inside]
    exact toInt?_ofInt inside
  · rw [int64?_of_not_inInt64 inside, if_neg inside]
    obtain ⟨negative, n, read, rfl⟩ := h.read?_eq
    have large : 2 ^ 63 ≤ n := by
      rw [InInt64] at inside
      split at inside <;> omega
    have exception : negative = true ∧ n ≤ 2 ^ 63 + 2 ^ 10 ↔
        RoundsIntoInt64 (if negative then -(n : Int) else n) := by
      rw [RoundsIntoInt64]
      rw [InInt64] at inside
      cases negative with
      | true => simp only [if_true, true_and] at inside ⊢; omega
      | false => simp only [Bool.false_eq_true, if_false, false_and, false_iff]; omega
    have rounded := Number.toInt?_nearest large negative
    rw [← Double.ofNumeral_integer (by omega) negative] at rounded
    simp only [exception] at rounded
    rw [read]
    exact rounded

theorem Bounded.ofInt?_eq_some_iff {lo hi z : Int} {v : Bounded lo hi} :
    Bounded.ofInt? z = some v ↔ v.toInt = z := by
  obtain ⟨w, low, high⟩ := v
  rw [Bounded.ofInt?]
  constructor
  · intro h
    split at h
    · exact (congrArg Subtype.val (Option.some.inj h)).symm
    · cases h
  · rintro rfl
    exact dif_pos ⟨low, high⟩

/-- A type of integers reads a text that spells an integer by way of the 64-bit integers. -/
theorem read_bounded_text {s : String} {z : Int} (h : SpellsInteger (Text.trim s.toList) z)
    {lo hi : Int} : (Readable.read (.text s) : Option (Bounded lo hi)) =
      if InInt64 z then Bounded.ofInt? z
      else if RoundsIntoInt64 z then Bounded.ofInt? (-2 ^ 63) else none := by
  have read : (Readable.read (.text s) : Option (Bounded lo hi)) =
      ((Number.ofText? (Text.trim s.toList)).bind Number.toInt?).bind Bounded.ofInt? := rfl
  rw [read, Number.toInt?_ofText? h]
  split
  · rfl
  · split <;> rfl

/-- A text that spells an integer reads as that integer if it is one of sixty-four bits and of the
type that reads it. Right below the range of 64-bit integers it reads as the least of them, to each
type that has it, and everywhere else it does not read. -/
theorem read_integer_text {s : String} {z : Int} (spelled : SpellsInteger (Text.trim s.toList) z)
    {lo hi : Int} (v : Bounded lo hi) :
    Readable.read (.text s) = some v ↔
      v.toInt = z ∧ InInt64 z ∨ v.toInt = -2 ^ 63 ∧ RoundsIntoInt64 z := by
  have apart : InInt64 z → ¬RoundsIntoInt64 z := by
    rw [InInt64, RoundsIntoInt64]
    omega
  rw [read_bounded_text spelled]
  by_cases inside : InInt64 z
  · rw [if_pos inside, Bounded.ofInt?_eq_some_iff]
    simp only [inside, apart inside, and_true, and_false, or_false]
  · rw [if_neg inside]
    by_cases near : RoundsIntoInt64 z
    · rw [if_pos near, Bounded.ofInt?_eq_some_iff]
      simp only [inside, near, and_true, and_false, false_or]
    · rw [if_neg near]
      simp only [inside, near, and_false, or_false, reduceCtorEq]

theorem read_integer_text_signedZeros :
    SpellsInteger (Text.trim " +007\n".toList) 7 ∧
      (Readable.read (.text " +007\n") : Option (Bounded 0 255)) = some ⟨7, by decide⟩ := by
  have spelled : SpellsInteger (Text.trim " +007\n".toList) 7 :=
    Decimal.integer?_eq_some_iff.1 (by decide)
  exact ⟨spelled, (read_integer_text spelled _).2 (.inl ⟨rfl, by decide⟩)⟩

/-- The first integer below the range is read, and as another one. -/
theorem read_text_belowRange :
    SpellsInteger (Text.trim "-9223372036854775809".toList) (-2 ^ 63 - 1) ∧
      ¬∀ v : Bounded (-2 ^ 63) (2 ^ 63 - 1), Readable.read (.text "-9223372036854775809") = some v ↔
        v.toInt = -2 ^ 63 - 1 ∧ InInt64 (-2 ^ 63 - 1) := by
  have spelled : SpellsInteger (Text.trim "-9223372036854775809".toList) (-2 ^ 63 - 1) :=
    Decimal.integer?_eq_some_iff.1 (by decide)
  refine ⟨spelled, ?_⟩
  intro claimed
  have least : (Readable.read (.text "-9223372036854775809") :
      Option (Bounded (-2 ^ 63) (2 ^ 63 - 1))) = some ⟨-2 ^ 63, by decide⟩ := by
    rw [read_bounded_text spelled]
    rfl
  obtain ⟨-, inside⟩ := (claimed _).1 least
  exact absurd inside (by decide)

end ConfigTree
