import ConfigTree.Decimal.Digits

/-!
# Words of digits

A positive number is written without leading zeros, and appending digits never makes the number
that a word denotes smaller.
-/

namespace ConfigTree.Decimal

theorem digits_of_ten_le {n : Nat} (h : 10 ≤ n) :
    digits n = digits (n / 10) ++ [(n % 10).digitChar] :=
  Nat.toDigits_of_base_le (by decide) h

theorem digits_of_lt_ten {n : Nat} (h : n < 10) : digits n = [n.digitChar] :=
  Nat.toDigits_of_lt_base h

/-- A number begins with a digit. -/
theorem digits_cons (n : Nat) : ∃ c cs, digits n = c :: cs ∧ c.isDigit = true := by
  obtain ⟨c, cs, hd⟩ := List.exists_cons_of_ne_nil (digits_ne_nil n)
  have member : c ∈ digits n := by
    rw [hd]
    exact List.mem_cons_self
  exact ⟨c, cs, hd, isDigit_of_mem_digits member⟩

/-- The digits of a positive number do not begin with a zero. -/
theorem head?_digits_ne_zero {n : Nat} (h : 0 < n) : (digits n).head? ≠ some '0' := by
  induction n using Nat.strongRecOn with
  | ind n ih =>
    by_cases small : n < 10
    · rw [digits_of_lt_ten small]
      have hd : ∀ n, n < 10 → 0 < n → some n.digitChar ≠ some '0' := by decide
      exact hd n small h
    · have rest := ih (n / 10) (by omega) (by omega)
      obtain ⟨c, cs, hd, -⟩ := digits_cons (n / 10)
      rw [hd] at rest
      rw [digits_of_ten_le (by omega), hd]
      exact rest

/-- A word of digits denotes at least what was denoted before it. -/
theorem le_ofDigitChars (n : Nat) (cs : List Char) : n ≤ Nat.ofDigitChars 10 cs n := by
  rw [Nat.ofDigitChars_eq_ofDigitChars_zero]
  have scale : n ≤ 10 ^ cs.length * n := Nat.le_mul_of_pos_left n (Nat.pow_pos (by decide))
  omega

end ConfigTree.Decimal
