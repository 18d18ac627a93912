import ConfigTree.Binary.Double

/-!
# Codes of numbers

What is left of a word without its sign bit is a code, and the codes below that of infinity are those
of the finite numbers. From a code the mantissa and the exponent of its number are found in one way,
whether the number is normal or not (`Layout.decode_of_lt`): the exponent is the least one, shifted
by the exponent field but not by its first step.
-/

namespace ConfigTree.Binary

namespace Layout

/-- How far the exponent at a code is above the least one. -/
def shift (L : Layout) (code : Nat) : Nat :=
  code / Nat.pow 2 L.fractionBits - 1

/-- The mantissa of the number with a code. -/
def mantissa (L : Layout) (code : Nat) : Nat :=
  code - L.shift code * Nat.pow 2 L.fractionBits

variable {L : Layout} {word : Nat}

/-- A word with a code below infinity is a finite number. -/
theorem decode_of_lt (finite : word % L.signWeight < L.infinityCode) :
    L.decode word = .finite (word / L.signWeight % 2 == 1) (L.mantissa (word % L.signWeight))
      (L.minExponent + L.shift (word % L.signWeight)) := by
  rw [decode]
  generalize word % L.signWeight = code at finite
  have whole := Nat.div_add_mod' code (2 ^ L.fractionBits)
  simp only [mantissa, shift, Nat.pow_eq]
  rw [if_neg (by omega), if_neg (by omega)]
  split
  · next field =>
    rw [field] at whole ⊢
    congr 1
    · omega
    · omega
  · next field =>
    obtain ⟨k, field⟩ := Nat.exists_eq_add_one_of_ne_zero field
    rw [field, Nat.add_one_mul] at whole
    rw [field, Nat.add_sub_cancel]
    congr 1
    · omega
    · omega

/-- Every other word is none. -/
theorem decode_of_le (above : L.infinityCode ≤ word % L.signWeight) (negative : Bool) (m : Nat)
    (e : Int) : L.decode word ≠ .finite negative m e := by
  rw [decode]
  split
  · exact nofun
  · rw [if_pos (by omega)]
    exact nofun

theorem nearest_le (L : Layout) (num den : Nat) : L.nearest num den ≤ L.infinityCode := by
  rw [nearest]
  split
  · exact Nat.zero_le _
  · exact Nat.min_le_left _ _

end Layout

namespace Double

open Layout (double)

variable {code : Nat}

theorem toNat_bits_ofCode (h : code ≤ double.infinityCode) (negative : Bool) :
    (ofCode negative code).bits.toNat = double.withSign negative code := by
  have infinity : double.infinityCode = 2047 * 2 ^ 52 := rfl
  have weight : double.signWeight = 2 ^ 63 := rfl
  have small : double.withSign negative code < 2 ^ 64 := by
    cases negative <;> simp only [Layout.withSign, weight] <;> simp <;> omega
  exact UInt64.toNat_ofNat_of_lt' small

/-- The sign of a double and the rest of its word are told apart again. -/
theorem bits_ofCode (h : code ≤ double.infinityCode) (negative : Bool) :
    ((ofCode negative code).bits.toNat / double.signWeight % 2 == 1) = negative ∧
      (ofCode negative code).bits.toNat % double.signWeight = code := by
  have infinity : double.infinityCode = 2047 * 2 ^ 52 := rfl
  have weight : double.signWeight = 2 ^ 63 := rfl
  rw [toNat_bits_ofCode h, weight]
  constructor <;> cases negative <;> simp only [Layout.withSign, weight] <;> simp <;> omega

theorem value_ofCode (finite : code < double.infinityCode) (negative : Bool) :
    (ofCode negative code).value =
      .finite negative (double.mantissa code) (double.minExponent + double.shift code) := by
  obtain ⟨sign, rest⟩ := bits_ofCode (Nat.le_of_lt finite) negative
  rw [value, Layout.decode_of_lt (by rw [rest]; exact finite), sign, rest]

theorem isFinite_ofCode (finite : code < double.infinityCode) (negative : Bool) :
    (ofCode negative code).isFinite = true := by
  rw [isFinite, value_ofCode finite]

theorem isFinite_infinity (negative : Bool) : (infinity negative).isFinite = false := by
  have meaning : (infinity negative).value = .infinite negative := by
    cases negative <;> decide
  rw [isFinite, meaning]

/-- A finite double has a code below infinity. -/
theorem exists_code {x : Double} {negative : Bool} {m : Nat} {e : Int}
    (h : x.value = .finite negative m e) : ∃ code < double.infinityCode,
      m = double.mantissa code ∧ e = double.minExponent + double.shift code := by
  rcases Nat.lt_or_ge (x.bits.toNat % double.signWeight) double.infinityCode with finite | above
  · rw [value, Layout.decode_of_lt finite] at h
    obtain ⟨-, rfl, rfl⟩ := Value.finite.inj h
    exact ⟨_, finite, rfl, rfl⟩
  · exact absurd h (Layout.decode_of_le above negative m e)

end Double

end ConfigTree.Binary
