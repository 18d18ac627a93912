import ConfigTree.Decimal.Numeral
import ConfigTree.Proofs.Text.Classes

/-!
# Characters of numerals

A plain numeral is spelled with digits, signs, a point and the letter `e`, so that there is nothing
to trim (`Numeral.trim_of_isPlain`). On the other side no integer and no numeral begins with a
letter.
-/

namespace ConfigTree.Decimal

/-- The characters with which numerals are spelled. -/
def isNumeric (c : Char) : Bool :=
  c.isDigit || c == '-' || c == '+' || c == '.' || c == 'e' || c == 'E'

variable {c : Char} {cs : List Char}

theorem isNumeric_of_isDigit (h : c.isDigit = true) : isNumeric c = true := by
  simp [isNumeric, h]

theorem isBlank_of_isNumeric (h : isNumeric c = true) : Text.isBlank c = false := by
  simp only [isNumeric, Bool.or_eq_true, beq_iff_eq] at h
  rcases h with ((((digit | rfl) | rfl) | rfl) | rfl) | rfl
  · exact Text.isBlank_of_isDigit digit
  all_goals decide

theorem all_isNumeric_of_all_isDigit (h : cs.all Char.isDigit = true) :
    cs.all isNumeric = true := by
  rw [List.all_eq_true] at h ⊢
  intro c member
  exact isNumeric_of_isDigit (h c member)

theorem all_isNumeric_of_natural? {n : Nat} (h : natural? cs = some n) :
    cs.all isNumeric = true := by
  unfold natural? at h
  split at h
  · next digits =>
    rw [Bool.and_eq_true] at digits
    exact all_isNumeric_of_all_isDigit digits.2
  · cases h

/-- An integer is a number behind a sign or without one. -/
theorem integer?_cases {z : Int} (h : integer? cs = some z) :
    (∃ ds n, cs = '-' :: ds ∧ natural? ds = some n ∧ z = -(n : Int)) ∨
      (∃ ds n, cs = '+' :: ds ∧ natural? ds = some n ∧ z = (n : Int)) ∨
        ∃ n, natural? cs = some n ∧ z = (n : Int) := by
  have lifted (f : Int → Int) (read : Option Nat) :
      Option.map f (do let n ← read; pure (n : Int)) = read.map fun n : Nat => f n := by
    cases read <;> rfl
  unfold integer? at h
  split at h
  all_goals
    rw [lifted] at h
    obtain ⟨n, digits, rfl⟩ := Option.map_eq_some_iff.1 h
  · exact .inl ⟨_, n, rfl, digits, rfl⟩
  · exact .inr (.inl ⟨_, n, rfl, digits, rfl⟩)
  · exact .inr (.inr ⟨n, digits, rfl⟩)

theorem all_isNumeric_of_integer? (h : (integer? cs).isSome = true) :
    cs.all isNumeric = true := by
  obtain ⟨z, read⟩ := Option.isSome_iff_exists.1 h
  rcases integer?_cases read with ⟨ds, n, rfl, digits, -⟩ | ⟨ds, n, rfl, digits, -⟩ | ⟨n, digits, -⟩
  · rw [List.all_cons, all_isNumeric_of_natural? digits]
    rfl
  · rw [List.all_cons, all_isNumeric_of_natural? digits]
    rfl
  · exact all_isNumeric_of_natural? digits

/-- No integer begins with a letter. -/
theorem integer?_of_isAlpha (h : c.isAlpha = true) (cs : List Char) : integer? (c :: cs) = none := by
  unfold integer?
  split
  · next heq =>
    obtain ⟨rfl, -⟩ := List.cons.inj heq
    cases h
  · next heq =>
    obtain ⟨rfl, -⟩ := List.cons.inj heq
    cases h
  · simp [natural?, Text.isDigit_of_isAlpha h]

namespace Numeral

theorem all_isNumeric_of_exponent? (h : (exponent? cs).isSome = true) :
    cs.all isNumeric = true := by
  unfold exponent? at h
  split at h
  · rfl
  · rw [List.all_cons, all_isNumeric_of_integer? h]
    rfl
  · rw [List.all_cons, all_isNumeric_of_integer? h]
    rfl
  · cases h

/-- Digits in front of numeric characters are numeric as well. -/
theorem all_isNumeric_of_dropWhile (h : (cs.dropWhile Char.isDigit).all isNumeric = true) :
    cs.all isNumeric = true := by
  rw [← List.takeWhile_append_dropWhile (p := Char.isDigit) (l := cs), List.all_append, h,
    all_isNumeric_of_all_isDigit List.all_takeWhile]
  rfl

theorem all_isNumeric_of_isPlainTail (h : isPlainTail cs = true) : cs.all isNumeric = true := by
  unfold isPlainTail at h
  split at h
  · rw [Bool.and_eq_true] at h
    rw [List.all_cons, all_isNumeric_of_dropWhile (all_isNumeric_of_exponent? h.2)]
    rfl
  · exact all_isNumeric_of_exponent? h

theorem all_isNumeric_of_isPlainUnsigned (h : isPlainUnsigned cs = true) :
    cs.all isNumeric = true := by
  rw [isPlainUnsigned, Bool.and_eq_true] at h
  exact all_isNumeric_of_dropWhile (all_isNumeric_of_isPlainTail h.2)

theorem all_isNumeric_of_isPlain (h : isPlain cs = true) : cs.all isNumeric = true := by
  unfold isPlain at h
  split at h
  · rw [List.all_cons, all_isNumeric_of_isPlainUnsigned h]
    rfl
  · exact all_isNumeric_of_isPlainUnsigned h

/-- There are no blanks around a plain numeral. -/
theorem trim_of_isPlain (h : isPlain cs = true) : Text.trim cs = cs := by
  apply Text.trim_of_forall
  intro c member
  exact isBlank_of_isNumeric (List.all_eq_true.1 (all_isNumeric_of_isPlain h) c member)

/-- No numeral begins with a letter. -/
theorem read?_of_isAlpha (h : c.isAlpha = true) (cs : List Char) : read? (c :: cs) = none := by
  have unsigned : takeSign (c :: cs) = (false, c :: cs) := by
    unfold takeSign
    split
    · next heq =>
      obtain ⟨rfl, -⟩ := List.cons.inj heq
      cases h
    · next heq =>
      obtain ⟨rfl, -⟩ := List.cons.inj heq
      cases h
    · rfl
  have pointless : takeFraction (c :: cs) = ([], c :: cs) := by
    unfold takeFraction
    split
    · next heq =>
      obtain ⟨rfl, -⟩ := List.cons.inj heq
      cases h
    · rfl
  have digitless := Text.isDigit_of_isAlpha h
  simp [read?, unsigned, unsigned?, digitless, pointless]

end Numeral

end ConfigTree.Decimal
