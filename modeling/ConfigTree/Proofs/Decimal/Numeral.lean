import ConfigTree.Proofs.Decimal.Digits
import ConfigTree.Proofs.Decimal.Spelling
import Mathlib.Data.List.Induction
import Mathlib.Data.List.TakeWhile

/-!
# Numerals of digits

Words of digits with a sign or none in front of them: which integer such a word denotes
(`integer?_eq_some_iff`), and that as a numeral it is no other number (`SpellsInteger.read?_eq`).
Digits without a leading zero are the ones with which a number is written (`digits_value`), so that
a plain numeral of digits is the text of its integer, but for a zero with a minus sign
(`isPlain_and_spells_iff`).
-/

namespace ConfigTree.Decimal

/-- A nonempty word of digits. -/
structure IsDigits (cs : List Char) : Prop where
  ne_nil : cs ≠ []
  digits : ∀ c ∈ cs, c.isDigit = true

/-- A word of digits behind a sign or without one, and the integer that it denotes. -/
inductive SpellsInteger : List Char → Int → Prop where
  | plain {ds : List Char} (digits : IsDigits ds) : SpellsInteger ds (value ds)
  | plus {ds : List Char} (digits : IsDigits ds) : SpellsInteger ('+' :: ds) (value ds)
  | minus {ds : List Char} (digits : IsDigits ds) : SpellsInteger ('-' :: ds) (-(value ds : Int))

variable {c : Char} {cs ds : List Char}

theorem natural?_eq_some_iff {n : Nat} : natural? cs = some n ↔ IsDigits cs ∧ value cs = n := by
  rw [natural?]
  constructor
  · intro h
    split at h
    · next digits =>
      simp only [Bool.and_eq_true, Bool.not_eq_true', List.isEmpty_eq_false_iff,
        List.all_eq_true] at digits
      exact ⟨⟨digits.1, digits.2⟩, Option.some.inj h⟩
    · cases h
  · rintro ⟨digits, rfl⟩
    rw [if_pos]
    simp only [Bool.and_eq_true, Bool.not_eq_true', List.isEmpty_eq_false_iff, List.all_eq_true]
    exact ⟨digits.ne_nil, digits.digits⟩

namespace IsDigits

theorem natural?_eq (h : IsDigits ds) : natural? ds = some (value ds) :=
  natural?_eq_some_iff.2 ⟨h, rfl⟩

/-- A word of digits begins with a digit, and so with no sign. -/
theorem exists_cons (h : IsDigits ds) :
    ∃ c cs, ds = c :: cs ∧ c.isDigit = true := by
  obtain ⟨c, cs, rfl⟩ := List.exists_cons_of_ne_nil h.ne_nil
  exact ⟨c, cs, rfl, h.digits c List.mem_cons_self⟩

theorem takeWhile_eq (h : IsDigits ds) : ds.takeWhile Char.isDigit = ds :=
  List.takeWhile_eq_self_iff.2 h.digits

theorem dropWhile_eq (h : IsDigits ds) : ds.dropWhile Char.isDigit = [] :=
  List.dropWhile_eq_nil_iff.2 h.digits

theorem takeSign_eq (h : IsDigits ds) : Numeral.takeSign ds = (false, ds) := by
  obtain ⟨c, cs, rfl, digit⟩ := h.exists_cons
  unfold Numeral.takeSign
  split
  · next heq =>
    obtain ⟨rfl, -⟩ := List.cons.inj heq
    cases digit
  · next heq =>
    obtain ⟨rfl, -⟩ := List.cons.inj heq
    cases digit
  · rfl

theorem unsigned?_eq (h : IsDigits ds) (negative : Bool) :
    Numeral.unsigned? negative ds = some ⟨negative, value ds, 0⟩ := by
  have some_digits : ds.isEmpty = false := List.isEmpty_eq_false_iff.2 h.ne_nil
  simp [Numeral.unsigned?, h.takeWhile_eq, h.dropWhile_eq, Numeral.takeFraction,
    Numeral.exponent?, some_digits]

end IsDigits

/-- What is read as an integer is a word of digits behind a sign or without one. -/
theorem integer?_eq_some_iff {z : Int} : integer? cs = some z ↔ SpellsInteger cs z := by
  constructor
  · intro h
    rcases integer?_cases h with ⟨ds, n, rfl, digits, rfl⟩ | ⟨ds, n, rfl, digits, rfl⟩ |
      ⟨n, digits, rfl⟩
    all_goals obtain ⟨word, rfl⟩ := natural?_eq_some_iff.1 digits
    · exact .minus word
    · exact .plus word
    · exact .plain word
  · intro h
    cases h with
    | minus digits => rw [integer?, digits.natural?_eq]; rfl
    | plus digits => rw [integer?, digits.natural?_eq]; rfl
    | plain digits =>
      obtain ⟨c, cs, rfl, digit⟩ := digits.exists_cons
      unfold integer?
      split
      · next heq =>
        obtain ⟨rfl, -⟩ := List.cons.inj heq
        cases digit
      · next heq =>
        obtain ⟨rfl, -⟩ := List.cons.inj heq
        cases digit
      · rw [digits.natural?_eq]; rfl

/-- As a numeral, an integer has its sign apart and no exponent. -/
theorem SpellsInteger.read?_eq {z : Int} (h : SpellsInteger cs z) :
    ∃ negative n, Numeral.read? cs = some ⟨negative, n, 0⟩ ∧
      z = if negative then -(n : Int) else n := by
  cases h with
  | minus digits => exact ⟨true, _, digits.unsigned?_eq true, rfl⟩
  | plus digits => exact ⟨false, _, digits.unsigned?_eq false, rfl⟩
  | plain digits =>
    refine ⟨false, value cs, ?_, rfl⟩
    rw [Numeral.read?, digits.takeSign_eq]
    exact digits.unsigned?_eq false

namespace Numeral

theorem isCanonicalWhole_cons : isCanonicalWhole (c :: cs) = true ↔ c = '0' → cs = [] := by
  rw [isCanonicalWhole.eq_def]
  split
  · next heq => cases heq
  · next heq =>
    obtain ⟨rfl, rfl⟩ := List.cons.inj heq
    simp
  · next other heq =>
    obtain ⟨rfl, rfl⟩ := List.cons.inj heq
    rw [bne_iff_ne]
    constructor
    · intro differs same
      exact absurd same differs
    · intro alone same
      exact other same (alone same)

/-- Digits do not begin with a zero, but for the number zero itself. -/
theorem isCanonicalWhole_digits (n : Nat) : isCanonicalWhole (digits n) = true := by
  cases n with
  | zero => rfl
  | succ n =>
    have zero := head?_digits_ne_zero (Nat.succ_pos n)
    obtain ⟨c, cs, hd, -⟩ := digits_cons (n + 1)
    rw [hd] at zero ⊢
    rw [isCanonicalWhole_cons]
    rintro rfl
    exact absurd rfl zero

theorem isDigits_digits (n : Nat) : IsDigits (digits n) :=
  ⟨digits_ne_nil n, fun _ => isDigit_of_mem_digits⟩

/-- A plain numeral of digits alone has no leading zero. -/
theorem isPlainUnsigned_of_isDigits (h : IsDigits ds) :
    isPlainUnsigned ds = isCanonicalWhole ds := by
  rw [isPlainUnsigned, h.takeWhile_eq, h.dropWhile_eq]
  exact Bool.and_true _

end Numeral

theorem digitChar_of_isDigit (h : c.isDigit = true) : (c.toNat - 48).digitChar = c := by
  have bounds := Text.isDigit_iff.1 h
  apply Char.toNat_inj.1
  rw [Nat.toNat_digitChar_of_lt_ten (by omega)]
  omega

theorem value_concat (ds : List Char) (d : Char) :
    value (ds ++ [d]) = 10 * value ds + (d.toNat - 48) := by
  rw [value, Nat.ofDigitChars_append]
  rfl

/-- Digits that begin with another one than zero denote a positive number. -/
theorem value_pos (h : IsDigits (c :: cs)) (positive : c ≠ '0') : 0 < value (c :: cs) := by
  have bounds := Text.isDigit_iff.1 (h.digits c List.mem_cons_self)
  have first : c.toNat ≠ 48 := fun same => positive (Char.toNat_inj.1 same)
  have denoted := le_ofDigitChars (10 * 0 + (c.toNat - '0'.toNat)) cs
  have zero : '0'.toNat = 48 := rfl
  rw [value, Nat.ofDigitChars_cons]
  omega

/-- Digits without a leading zero are the ones with which their number is written. -/
theorem digits_value (h : IsDigits ds) (canonical : Numeral.isCanonicalWhole ds = true) :
    digits (value ds) = ds := by
  induction ds using List.reverseRecOn with
  | nil => exact absurd rfl h.ne_nil
  | append_singleton init d ih =>
    have digit := h.digits d (List.mem_append_right _ List.mem_cons_self)
    have bounds := Text.isDigit_iff.1 digit
    rw [value_concat]
    cases init with
    | nil =>
      have none : value [] = 0 := rfl
      rw [none, digits_of_lt_ten (by omega), Nat.mul_zero, Nat.zero_add, digitChar_of_isDigit digit]
      rfl
    | cons c cs =>
      have positive : c ≠ '0' := by
        intro zero
        rw [List.cons_append, Numeral.isCanonicalWhole_cons] at canonical
        exact List.concat_ne_nil d cs (canonical zero)
      have front : IsDigits (c :: cs) :=
        ⟨List.cons_ne_nil _ _, fun x member => h.digits x (List.mem_append_left _ member)⟩
      have large := value_pos front positive
      have same := ih front (Numeral.isCanonicalWhole_cons.2 fun zero => absurd zero positive)
      have quotient : (10 * value (c :: cs) + (d.toNat - 48)) / 10 = value (c :: cs) := by omega
      have remainder : (10 * value (c :: cs) + (d.toNat - 48)) % 10 = d.toNat - 48 := by omega
      rw [digits_of_ten_le (by omega), quotient, remainder, same, digitChar_of_isDigit digit]

namespace Numeral

theorem isPlain_of_isDigits (h : IsDigits ds) : isPlain ds = isCanonicalWhole ds := by
  rw [← isPlainUnsigned_of_isDigits h]
  obtain ⟨c, cs, rfl, digit⟩ := h.exists_cons
  rw [isPlain.eq_def]
  split
  · next heq =>
    obtain ⟨rfl, -⟩ := List.cons.inj heq
    cases digit
  · rfl

/-- The plain numerals that are integers: each integer as it is written, and zero with a minus sign
besides. -/
theorem isPlain_and_spells_iff {z : Int} :
    isPlain cs = true ∧ SpellsInteger cs z ↔ cs = signedDigits z ∨ cs = ['-', '0'] ∧ z = 0 := by
  constructor
  · rintro ⟨plain, spelled⟩
    cases spelled with
    | plus digits => cases plain
    | plain digits =>
      rw [isPlain_of_isDigits digits] at plain
      left
      rw [signedDigits, if_neg (by omega), Int.natAbs_natCast, digits_value digits plain]
    | @minus ds digits =>
      have canonical : isCanonicalWhole ds = true := by
        rw [← isPlainUnsigned_of_isDigits digits]
        exact plain
      have written := digits_value digits canonical
      by_cases zero : value ds = 0
      · rw [zero] at written ⊢
        exact .inr ⟨by rw [← written]; rfl, rfl⟩
      · left
        rw [signedDigits, if_pos (by omega), Int.natAbs_neg, Int.natAbs_natCast, written]
  · rintro (rfl | ⟨rfl, rfl⟩)
    · have digits := isDigits_digits z.natAbs
      have canonical := isCanonicalWhole_digits z.natAbs
      rw [signedDigits]
      by_cases negative : z < 0
      · have spelled := SpellsInteger.minus digits
        have same : -(z.natAbs : Int) = z := by omega
        rw [value_digits, same] at spelled
        rw [if_pos negative]
        exact ⟨(isPlainUnsigned_of_isDigits digits).trans canonical, spelled⟩
      · have spelled := SpellsInteger.plain digits
        have same : (z.natAbs : Int) = z := by omega
        rw [value_digits, same] at spelled
        rw [if_neg negative]
        exact ⟨(isPlain_of_isDigits digits).trans canonical, spelled⟩
    · exact ⟨rfl, .minus (isDigits_digits 0)⟩

theorem isSome_exponent?_of_isPlainTail (h : isPlainTail cs = true) :
    (exponent? (takeFraction cs).2).isSome = true := by
  unfold isPlainTail at h
  split at h
  · rw [Bool.and_eq_true] at h
    exact h.2
  · next no_point =>
    unfold takeFraction
    split
    · next rest => exact absurd rfl (no_point rest)
    · exact h

theorem isSome_unsigned?_of_isPlainUnsigned (h : isPlainUnsigned cs = true) (negative : Bool) :
    (unsigned? negative cs).isSome = true := by
  rw [isPlainUnsigned, Bool.and_eq_true] at h
  have whole : (cs.takeWhile Char.isDigit).isEmpty = false := by
    cases front : cs.takeWhile Char.isDigit with
    | nil =>
      rw [front] at h
      cases h.1
    | cons => rfl
  have exponent := isSome_exponent?_of_isPlainTail h.2
  simp only [unsigned?, whole, Bool.false_and, Bool.false_eq_true, if_false, Option.isSome_map,
    exponent]

/-- A plain numeral is a numeral. -/
theorem isSome_read?_of_isPlain (h : isPlain cs = true) : (read? cs).isSome = true := by
  unfold isPlain at h
  split at h
  · exact isSome_unsigned?_of_isPlainUnsigned h true
  · next no_minus =>
    have unsigned : takeSign cs = (false, cs) := by
      unfold takeSign
      split
      · next rest => exact absurd rfl (no_minus rest)
      · cases h
      · rfl
    rw [read?, unsigned]
    exact isSome_unsigned?_of_isPlainUnsigned h false

/-- No word of letters is a plain numeral. -/
theorem isPlain_of_isWord (h : Text.IsWord cs) : isPlain cs = false := by
  obtain ⟨c, cs, rfl⟩ := List.exists_cons_of_ne_nil h.ne_nil
  have letter := h.letters c List.mem_cons_self
  have no_digit := Text.isDigit_of_isAlpha letter
  have unsigned : isPlainUnsigned (c :: cs) = false := by
    rw [isPlainUnsigned, List.takeWhile_cons, if_neg (by simp [no_digit])]
    rfl
  unfold isPlain
  split
  · next heq =>
    obtain ⟨rfl, -⟩ := List.cons.inj heq
    cases letter
  · exact unsigned

end Numeral

end ConfigTree.Decimal
