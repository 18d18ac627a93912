import ConfigTree.Proofs.Binary.Exact
import Mathlib.Algebra.Order.Field.Power
import Mathlib.Tactic.Linarith
import Mathlib.Tactic.Positivity
import Mathlib.Tactic.Ring

/-!
# Magnitudes

The codes of finite numbers count these numbers upwards from zero. `Layout.magnitude` says which
number a code stands for; it goes on beyond infinity as if exponents had no end, and grows with the
code (`strictMono_magnitude`). The spacing of the numbers doubles from one exponent to the next, so
that from some code on all of them lie on the grid of a spacing (`on_grid_or_lt`).
-/

namespace ConfigTree.Binary

namespace Layout

/-- The number with a code, if exponents had no end. -/
def magnitude (L : Layout) (code : Nat) : ℚ :=
  L.mantissa code * 2 ^ (L.minExponent + L.shift code)

variable (L : Layout)

/-- A mantissa and a shift make up the code of their number. The mantissa has a bit more than the
fraction, and all its bits as soon as anything is shifted. -/
theorem magnitude_shifted {k r : Nat} (fits : r ≤ 2 ^ (L.fractionBits + 1))
    (normal : k = 0 ∨ 2 ^ L.fractionBits ≤ r) :
    L.magnitude (k * 2 ^ L.fractionBits + r) = r * 2 ^ (L.minExponent + k) := by
  have pos : 0 < 2 ^ L.fractionBits := Nat.two_pow_pos _
  rw [Nat.pow_succ] at fits
  simp only [magnitude, mantissa, shift, Nat.pow_eq]
  have field : (k * 2 ^ L.fractionBits + r) / 2 ^ L.fractionBits =
      k + r / 2 ^ L.fractionBits := by
    rw [Nat.mul_comm, Nat.mul_add_div pos]
  rw [field]
  rcases Nat.lt_or_ge r (2 ^ L.fractionBits) with low | high
  · obtain rfl : k = 0 := normal.resolve_right (by omega)
    rw [Nat.div_eq_of_lt low]
    simp
  · rcases Nat.lt_or_eq_of_le fits with less | carried
    · have one : r / 2 ^ L.fractionBits = 1 := Nat.div_eq_of_lt_le (by omega) (by omega)
      rw [one, Nat.add_sub_cancel, Nat.add_sub_cancel_left]
    · -- a mantissa of ones that was rounded up carries into the exponent
      have two : r / 2 ^ L.fractionBits = 2 := by
        rw [carried, Nat.mul_div_cancel_left 2 pos]
      have rest : k * 2 ^ L.fractionBits + r - (k + 1) * 2 ^ L.fractionBits =
          2 ^ L.fractionBits := by
        rw [Nat.add_one_mul]
        omega
      have doubled : (r : ℚ) = 2 ^ L.fractionBits * 2 := by exact_mod_cast carried
      rw [two, show k + 2 - 1 = k + 1 from rfl, rest, doubled, Nat.cast_add_one, ← add_assoc,
        zpow_add_one₀ two_ne_zero]
      push_cast
      ring

theorem exists_shifted (code : Nat) : ∃ k r, code = k * 2 ^ L.fractionBits + r ∧
    r < 2 ^ (L.fractionBits + 1) ∧ (k = 0 ∨ 2 ^ L.fractionBits ≤ r) := by
  have whole := Nat.div_add_mod' code (2 ^ L.fractionBits)
  have rest := Nat.mod_lt code (Nat.two_pow_pos L.fractionBits)
  rw [Nat.pow_succ]
  cases field : code / 2 ^ L.fractionBits with
  | zero =>
    rw [field] at whole
    exact ⟨0, code, by omega, by omega, .inl rfl⟩
  | succ k =>
    rw [field, Nat.add_one_mul] at whole
    exact ⟨k, 2 ^ L.fractionBits + code % 2 ^ L.fractionBits, by omega, by omega,
      .inr (Nat.le_add_right _ _)⟩

theorem magnitude_zero : L.magnitude 0 = 0 := by
  have first := L.magnitude_shifted (k := 0) (Nat.zero_le _) (.inl rfl)
  rw [Nat.zero_mul, Nat.cast_zero, zero_mul] at first
  exact first

/-- The numbers grow with their codes. -/
theorem strictMono_magnitude : StrictMono L.magnitude := by
  apply strictMono_nat_of_lt_succ
  intro code
  obtain ⟨k, r, rfl, fits, normal⟩ := L.exists_shifted code
  rw [Nat.add_assoc, L.magnitude_shifted (Nat.le_of_lt fits) normal,
    L.magnitude_shifted fits (normal.imp_right fun full => Nat.le_succ_of_le full)]
  exact mul_lt_mul_of_pos_right (by exact_mod_cast Nat.lt_succ_self r) (zpow_pos two_pos _)

theorem magnitude_nonneg (code : Nat) : 0 ≤ L.magnitude code := by
  rw [← L.magnitude_zero]
  exact L.strictMono_magnitude.monotone (Nat.zero_le code)

/-- A number lies on the grid of a spacing, or below the numbers that are spaced so. -/
theorem on_grid_or_lt (code k : Nat) :
    (∃ z : Nat, L.magnitude code = z * 2 ^ (L.minExponent + k)) ∨
      k ≠ 0 ∧ L.magnitude code < 2 ^ L.fractionBits * 2 ^ (L.minExponent + k) := by
  obtain ⟨j, r, rfl, fits, normal⟩ := L.exists_shifted code
  rw [L.magnitude_shifted (Nat.le_of_lt fits) normal]
  rcases Nat.lt_or_ge j k with below | above
  · refine .inr ⟨by omega, ?_⟩
    calc
      (r : ℚ) * 2 ^ (L.minExponent + j)
        < 2 ^ (L.fractionBits + 1) * 2 ^ (L.minExponent + j) :=
          mul_lt_mul_of_pos_right (by exact_mod_cast fits) (zpow_pos two_pos _)
      _ = 2 ^ L.fractionBits * 2 ^ (L.minExponent + j + 1) := by
          rw [zpow_add_one₀ two_ne_zero]
          ring
      _ ≤ 2 ^ L.fractionBits * 2 ^ (L.minExponent + k) := by
          have further : L.minExponent + j + 1 ≤ L.minExponent + k := by omega
          exact mul_le_mul_of_nonneg_left (zpow_le_zpow_right₀ one_le_two further) (by positivity)
  · obtain ⟨i, rfl⟩ := Nat.exists_eq_add_of_le above
    refine .inl ⟨r * 2 ^ i, ?_⟩
    rw [Nat.cast_add, ← add_assoc, zpow_add₀ two_ne_zero, zpow_natCast]
    push_cast
    ring

end Layout

end ConfigTree.Binary
