import ConfigTree.Proofs.Decimal.Numeral
import Mathlib.Computability.Language

/-!
# The grammar of plain numerals

The texts that stand for numbers by themselves are a regular language, which `plainNumerals` spells
out: a minus sign or none, digits without a leading zero, a fraction or none, an exponent or none.
The recogniser accepts exactly these (`isPlain_iff_mem`), one lemma for each part of a numeral.
-/

namespace ConfigTree.Decimal

open scoped Computability

/-- The words of a single character of a class. -/
def oneOf (p : Char → Bool) : Language Char :=
  {cs | ∃ c, p c = true ∧ cs = [c]}

/-- The words of a language and the empty word. -/
def optionally (l : Language Char) : Language Char :=
  1 + l

/-- The nonempty words of digits. -/
def someDigits : Language Char :=
  oneOf Char.isDigit * (oneOf Char.isDigit)∗

/-- A zero alone, or digits that begin with another one. -/
def wholes : Language Char :=
  oneOf (· == '0') + oneOf (fun c => c.isDigit && c != '0') * (oneOf Char.isDigit)∗

/-- A point and digits. -/
def fractions : Language Char :=
  oneOf (· == '.') * someDigits

/-- The letter `e`, a sign or none, and digits. -/
def exponents : Language Char :=
  oneOf (fun c => c == 'e' || c == 'E') *
    (optionally (oneOf fun c => c == '+' || c == '-') * someDigits)

/-- The numerals that stand for numbers wherever they occur. -/
def plainNumerals : Language Char :=
  optionally (oneOf (· == '-')) * (wholes * (optionally fractions * optionally exponents))

variable {p : Char → Bool} {l m : Language Char} {c : Char} {cs ds : List Char}

theorem nil_notMem_oneOf_mul : [] ∉ oneOf p * l := by
  rw [Language.mem_mul]
  rintro ⟨_, ⟨c, -, rfl⟩, rest, -, h⟩
  cases h

theorem cons_mem_oneOf_mul : c :: cs ∈ oneOf p * l ↔ p c = true ∧ cs ∈ l := by
  rw [Language.mem_mul]
  constructor
  · rintro ⟨_, ⟨d, class_d, rfl⟩, rest, member, h⟩
    obtain ⟨rfl, rfl⟩ := List.cons.inj h
    exact ⟨class_d, member⟩
  · rintro ⟨class_c, member⟩
    exact ⟨[c], ⟨c, class_c, rfl⟩, cs, member, rfl⟩

theorem mem_optionally : cs ∈ optionally l ↔ cs = [] ∨ cs ∈ l := by
  rw [optionally, Language.mem_add, Language.mem_one]

theorem mem_optionally_mul : cs ∈ optionally l * m ↔ cs ∈ m ∨ cs ∈ l * m := by
  rw [optionally, add_mul, one_mul, Language.mem_add]

/-- The words over a class are those of which all characters are in the class. -/
theorem mem_kstar_oneOf : cs ∈ (oneOf p)∗ ↔ ∀ c ∈ cs, p c = true := by
  induction cs with
  | nil => exact ⟨fun _ => nofun, fun _ => Language.nil_mem_kstar _⟩
  | cons c cs ih =>
    rw [← Language.one_add_self_mul_kstar_eq_kstar, Language.mem_add, Language.mem_one,
      cons_mem_oneOf_mul, ih, List.forall_mem_cons]
    simp

theorem mem_someDigits : cs ∈ someDigits ↔ IsDigits cs := by
  rw [someDigits]
  cases cs with
  | nil => exact ⟨fun h => absurd h nil_notMem_oneOf_mul, fun h => absurd rfl h.ne_nil⟩
  | cons c cs =>
    rw [cons_mem_oneOf_mul, mem_kstar_oneOf]
    constructor
    · intro h
      exact ⟨List.cons_ne_nil _ _, List.forall_mem_cons.2 h⟩
    · intro h
      exact List.forall_mem_cons.1 h.digits

theorem cons_mem_oneOf : c :: cs ∈ oneOf p ↔ p c = true ∧ cs = [] := by
  constructor
  · rintro ⟨d, class_d, h⟩
    obtain ⟨rfl, rfl⟩ := List.cons.inj h
    exact ⟨class_d, rfl⟩
  · rintro ⟨class_c, rfl⟩
    exact ⟨c, class_c, rfl⟩

theorem isSome_integer?_iff : (integer? cs).isSome = true ↔
    cs ∈ optionally (oneOf fun c => c == '+' || c == '-') * someDigits := by
  rw [Option.isSome_iff_exists, mem_optionally_mul, mem_someDigits]
  simp only [integer?_eq_some_iff]
  constructor
  · rintro ⟨z, plain | plus | minus⟩
    · exact .inl plain
    · exact .inr (cons_mem_oneOf_mul.2 ⟨rfl, mem_someDigits.2 plus⟩)
    · exact .inr (cons_mem_oneOf_mul.2 ⟨rfl, mem_someDigits.2 minus⟩)
  · rintro (plain | signed)
    · exact ⟨_, .plain plain⟩
    · cases cs with
      | nil => exact absurd signed nil_notMem_oneOf_mul
      | cons c cs =>
        obtain ⟨sign, digits⟩ := cons_mem_oneOf_mul.1 signed
        simp only [Bool.or_eq_true, beq_iff_eq] at sign
        rcases sign with rfl | rfl
        · exact ⟨_, .plus (mem_someDigits.1 digits)⟩
        · exact ⟨_, .minus (mem_someDigits.1 digits)⟩

namespace Numeral

theorem isSome_exponent?_iff : (exponent? cs).isSome = true ↔ cs ∈ optionally exponents := by
  rw [mem_optionally, exponents]
  cases cs with
  | nil => simp [exponent?]
  | cons c cs =>
    rw [cons_mem_oneOf_mul, ← isSome_integer?_iff]
    by_cases e : c = 'e' ∨ c = 'E'
    · rcases e with rfl | rfl <;> simp [exponent?]
    · rw [exponent?.eq_def]
      split <;> simp_all

/-- Digits in front of what does not begin with a digit are found again. -/
theorem mem_mul_iff_takeWhile {digits ends : Language Char}
    (all_digits : ∀ ds ∈ digits, ∀ c ∈ ds, c.isDigit = true)
    (no_digit : ∀ cs ∈ ends, ∀ c, cs.head? = some c → c.isDigit = false) :
    cs ∈ digits * ends ↔ cs.takeWhile Char.isDigit ∈ digits ∧ cs.dropWhile Char.isDigit ∈ ends := by
  constructor
  · intro h
    obtain ⟨ds, member, rest, behind, rfl⟩ := Language.mem_mul.1 h
    have stops : rest.takeWhile Char.isDigit = [] ∧ rest.dropWhile Char.isDigit = rest := by
      cases rest with
      | nil => exact ⟨rfl, rfl⟩
      | cons c cs =>
        have first := no_digit _ behind c rfl
        simp [first]
    rw [List.takeWhile_append_of_pos (all_digits ds member),
      List.dropWhile_append_of_pos (all_digits ds member), stops.1, stops.2, List.append_nil]
    exact ⟨member, behind⟩
  · rintro ⟨member, behind⟩
    exact Language.mem_mul.2 ⟨_, member, _, behind, List.takeWhile_append_dropWhile⟩

theorem isDigit_of_head?_exponents (h : cs ∈ optionally exponents) (head : cs.head? = some c) :
    c.isDigit = false := by
  cases cs with
  | nil => cases head
  | cons d cs =>
    obtain rfl : d = c := Option.some.inj head
    rcases mem_optionally.1 h with h | h
    · cases h
    · have letter := (cons_mem_oneOf_mul.1 h).1
      simp only [Bool.or_eq_true, beq_iff_eq] at letter
      rcases letter with rfl | rfl <;> rfl

/-- What may stand behind the whole part of a plain numeral. -/
def tails : Language Char :=
  optionally fractions * optionally exponents

theorem cons_mem_tails : c :: cs ∈ tails ↔
    c :: cs ∈ optionally exponents ∨ c = '.' ∧ cs ∈ someDigits * optionally exponents := by
  rw [tails, mem_optionally_mul, fractions, mul_assoc, cons_mem_oneOf_mul, beq_iff_eq]

theorem isDigit_of_head?_tails (h : cs ∈ tails) (head : cs.head? = some c) : c.isDigit = false := by
  cases cs with
  | nil => cases head
  | cons d cs =>
    rcases cons_mem_tails.1 h with behind | ⟨rfl, -⟩
    · exact isDigit_of_head?_exponents behind head
    · obtain rfl := Option.some.inj head
      rfl

theorem isPlainTail_iff_mem : isPlainTail cs = true ↔ cs ∈ tails := by
  cases cs with
  | nil =>
    have empty : [] ∈ tails := mem_optionally_mul.2 (.inl (mem_optionally.2 (.inl rfl)))
    simp only [empty, iff_true]
    rfl
  | cons c cs =>
    rw [cons_mem_tails]
    by_cases point : c = '.'
    · subst point
      have no_exponent : '.' :: cs ∉ optionally exponents := by
        rw [← isSome_exponent?_iff]
        exact Bool.false_ne_true
      have digits : cs ∈ someDigits * optionally exponents ↔ _ :=
        mem_mul_iff_takeWhile (fun _ h => (mem_someDigits.1 h).digits)
          fun _ h _ => isDigit_of_head?_exponents h
      have nonempty : cs.takeWhile Char.isDigit ≠ [] ↔ IsDigits (cs.takeWhile Char.isDigit) :=
        ⟨fun h => ⟨h, fun _ => List.mem_takeWhile_imp⟩, IsDigits.ne_nil⟩
      rw [isPlainTail, Bool.and_eq_true, Bool.not_eq_true', List.isEmpty_eq_false_iff,
        isSome_exponent?_iff, digits, mem_someDigits, nonempty]
      simp only [no_exponent, false_or, true_and]
    · simp only [point, false_and, or_false]
      rw [← isSome_exponent?_iff, isPlainTail.eq_def]
      split
      · next heq =>
        obtain ⟨rfl, -⟩ := List.cons.inj heq
        exact absurd rfl point
      · rfl

theorem isCanonicalWhole_iff_mem (digits : ∀ c ∈ ds, c.isDigit = true) :
    isCanonicalWhole ds = true ↔ ds ∈ wholes := by
  rw [wholes, Language.mem_add]
  cases ds with
  | nil =>
    constructor
    · intro h
      cases h
    · rintro (⟨c, -, h⟩ | h)
      · cases h
      · exact absurd h nil_notMem_oneOf_mul
  | cons c cs =>
    obtain ⟨first, later⟩ := List.forall_mem_cons.1 digits
    rw [isCanonicalWhole_cons, cons_mem_oneOf, cons_mem_oneOf_mul, mem_kstar_oneOf, first,
      Bool.true_and, beq_iff_eq, bne_iff_ne]
    constructor
    · intro alone
      by_cases zero : c = '0'
      · exact .inl ⟨zero, alone zero⟩
      · exact .inr ⟨zero, later⟩
    · rintro (⟨-, rfl⟩ | ⟨differs, -⟩) zero
      · rfl
      · exact absurd zero differs

theorem isDigit_of_mem_wholes (h : ds ∈ wholes) (member : c ∈ ds) : c.isDigit = true := by
  rcases Language.mem_add _ _ _ |>.1 h with ⟨d, zero, rfl⟩ | h
  · obtain rfl := List.mem_singleton.1 member
    obtain rfl := eq_of_beq zero
    rfl
  · cases ds with
    | nil => exact absurd h nil_notMem_oneOf_mul
    | cons d ds =>
      obtain ⟨first, later⟩ := cons_mem_oneOf_mul.1 h
      rcases List.mem_cons.1 member with rfl | member
      · rw [Bool.and_eq_true] at first
        exact first.1
      · exact mem_kstar_oneOf.1 later c member

theorem isPlainUnsigned_iff_mem : isPlainUnsigned cs = true ↔ cs ∈ wholes * tails := by
  have all_digits : ∀ c ∈ cs.takeWhile Char.isDigit, c.isDigit = true :=
    fun _ => List.mem_takeWhile_imp
  rw [isPlainUnsigned, Bool.and_eq_true, isCanonicalWhole_iff_mem all_digits, isPlainTail_iff_mem]
  exact (mem_mul_iff_takeWhile (fun _ h _ => isDigit_of_mem_wholes h)
    fun _ h _ => isDigit_of_head?_tails h).symm

/-- The recogniser accepts the language. -/
theorem isPlain_iff_mem : isPlain cs = true ↔ cs ∈ plainNumerals := by
  rw [plainNumerals, ← tails, mem_optionally_mul, ← isPlainUnsigned_iff_mem]
  cases cs with
  | nil => simp [isPlain, nil_notMem_oneOf_mul]
  | cons c cs =>
    rw [cons_mem_oneOf_mul, ← isPlainUnsigned_iff_mem, beq_iff_eq]
    by_cases minus : c = '-'
    · subst minus
      have no_digit : isPlainUnsigned ('-' :: cs) = false := rfl
      simp [isPlain, no_digit]
    · simp only [minus, false_and, or_false]
      rw [isPlain.eq_def]
      split
      · next heq =>
        obtain ⟨rfl, -⟩ := List.cons.inj heq
        exact absurd rfl minus
      · rfl

end Numeral

end ConfigTree.Decimal
