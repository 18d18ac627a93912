import ConfigTree.Decode
import ConfigTree.Proofs.Json.Lexeme
import ConfigTree.Proofs.Tree.Classification

/-!
# Integer literals as documents

A literal of an integer is read as that integer when it fits in sixty-four bits with a sign, and as
no integer otherwise (`decode_integerLiteral`). The one literal of which this is not true is `-0`:
its sign is kept in a double, whereas the integer zero is inferred from the same text elsewhere.
-/

namespace ConfigTree

open Decimal (SpellsInteger signedDigits)
open scoped Computability

namespace Decimal

/-- A minus sign or none, and digits without a leading zero. -/
def integerLiterals : Language Char :=
  optionally (oneOf (· == '-')) * wholes

theorem mem_plainNumerals {cs : List Char} (literal : cs ∈ integerLiterals) :
    cs ∈ plainNumerals := by
  obtain ⟨sign, member, ds, whole, rfl⟩ := Language.mem_mul.1 literal
  have none_behind : [] ∈ optionally fractions * optionally exponents :=
    mem_optionally_mul.2 (.inl (mem_optionally.2 (.inl rfl)))
  exact Language.mem_mul.2 ⟨sign, member, ds,
    Language.mem_mul.2 ⟨ds, whole, [], none_behind, List.append_nil ds⟩, rfl⟩

/-- A literal is the text with which its integer is written, or a zero with a minus sign. -/
theorem eq_signedDigits_of_mem {cs : List Char} {z : Int} (literal : cs ∈ integerLiterals)
    (denotes : SpellsInteger cs z) : cs = signedDigits z ∨ cs = ['-', '0'] ∧ z = 0 :=
  Numeral.isPlain_and_spells_iff.1
    ⟨Numeral.isPlain_iff_mem.2 (mem_plainNumerals literal), denotes⟩

end Decimal

theorem Numeric.toNumber_eq_int_iff {n : Numeric} {i : Int64} :
    n.toNumber = .int i ↔ n = .integer i.toInt := by
  cases n with
  | double x => simp [toNumber]
  | integer z =>
    rw [toNumber, Numeric.integer.injEq]
    cases inside : int64? z with
    | none =>
      have outside : z ≠ i.toInt := by
        rintro rfl
        rw [int64?_toInt] at inside
        cases inside
      simp [outside]
    | some j =>
      obtain rfl := int64?_eq_some_iff.1 inside
      rw [Number.int.injEq, Int64.toInt_inj]

namespace Json

namespace Numeral

/-- Digits of which none are left over are the significand. -/
theorem significand_of_accumulate {cs : List Char} {n : Nat} (h : (accumulate n cs).2 = []) :
    (accumulate n cs).1 = Nat.ofDigitChars 10 cs n := by
  induction cs generalizing n with
  | nil => rfl
  | cons c cs ih =>
    rw [accumulate] at h ⊢
    rw [Nat.ofDigitChars_cons, Nat.mul_comm 10 n]
    split at h
    · next fits =>
      rw [if_pos fits]
      exact ih h
    · cases h

theorem integer_eq_integer {negative : Bool} {n : Nat} {w : Int}
    (h : integer negative n = .integer w) : w = if negative then -(n : Int) else n := by
  rw [integer] at h
  cases negative with
  | false => exact (Numeric.integer.inj h).symm
  | true =>
    rw [if_neg (by decide)] at h
    split at h
    · exact (Numeric.integer.inj h).symm
    · cases h

/-- The numeral of an integer denotes no other integer. -/
theorem eq_of_value?_ofInt {z w : Int} (h : (ofInt z).value? = some (.integer w)) : w = z := by
  have denoted : Nat.ofDigitChars 10 (Decimal.digits z.natAbs) 0 = z.natAbs :=
    Decimal.value_digits z.natAbs
  simp only [value?, ofInt] at h
  split at h
  · next whole =>
    simp only [Option.isNone_none, Bool.and_true, List.isEmpty_iff] at whole
    have signed := integer_eq_integer (Option.some.inj h)
    rw [significand_of_accumulate whole, denoted] at signed
    simp only [decide_eq_true_eq] at signed
    split at signed <;> omega
  · obtain ⟨x, -, double⟩ := Option.map_eq_some_iff.1 h
    cases double

end Numeral

/-- The text of an integer is a single lexeme, if its numeral has a value. -/
theorem ofText?_signedDigits (z : Int) :
    Lexeme.ofText? (signedDigits z) = (Numeral.ofInt z).value?.map fun n => [.number n] := by
  have taken := Lexeme.take?_signedDigits endsNumeral_nil z
  have visible := Lexeme.dropWhile_signedDigits z []
  rw [List.append_nil] at taken visible
  obtain ⟨c, cs, text, -⟩ := Numeral.signedDigits_cons z
  have some_text : signedDigits z ≠ [] := by
    rw [text]
    exact List.cons_ne_nil c cs
  rw [Lexeme.ofText?_eq_bind some_text visible, taken]
  cases (Numeral.ofInt z).value? with
  | none => rfl
  | some n =>
    rw [Option.map_some, Option.bind_some, Lexeme.ofText?_nil]
    rfl

/-- The text of an integer is a document of that integer in the range of sixty-four bits, and beyond
it is a document of no integer. -/
theorem decode_signedDigits_eq_int_iff {raw : String} {z : Int} (text : raw.toList = signedDigits z)
    {i : Int64} : decode raw = .ok (.scalar (.number (.int i))) ↔ i.toInt = z := by
  rw [decode, parse?, text, ofText?_signedDigits]
  constructor
  · intro read
    cases value : (Numeral.ofInt z).value? with
    | none =>
      rw [value] at read
      cases read
    | some n =>
      rw [value] at read
      have number : n.toNumber = .int i := by
        injection read with tree
        injection tree with scalar
        injection scalar
      rw [Numeric.toNumber_eq_int_iff] at number
      rw [number] at value
      exact Numeral.eq_of_value?_ofInt value
  · rintro rfl
    obtain ⟨low, high⟩ := toInt_mem_range i
    have number : (Numeric.integer i.toInt).toNumber = .int i := Numeric.toNumber_eq_int_iff.2 rfl
    rw [Numeral.value?_ofInt low high, ← number]
    rfl

/-- A zero with a minus sign is a double. -/
theorem decode_minusZero : decode "-0" = .ok (.scalar (.number (.float (.zero true)))) := by
  have lexemes : Lexeme.ofText? ['-', '0'] = some [.number (.double (.zero true))] := by
    rw [Lexeme.ofText?_eq_bind (List.cons_ne_nil _ _) rfl]
    have taken : Lexeme.take? ['-', '0'] = some (.number (.double (.zero true)), []) := by
      decide +kernel
    rw [taken, Option.bind_some, Lexeme.ofText?_nil]
    rfl
  have text : "-0".toList = ['-', '0'] := rfl
  rw [decode, parse?, text, lexemes]
  rfl

end Json

theorem signedDigits_ne_minusZero (z : Int) : signedDigits z ≠ ['-', '0'] := by
  intro same
  rw [signedDigits] at same
  by_cases negative : z < 0
  · rw [if_pos negative] at same
    have digits : Decimal.digits z.natAbs = ['0'] := (List.cons.inj same).2
    have denoted := Decimal.value_digits z.natAbs
    rw [digits] at denoted
    have zero : 0 = z.natAbs := denoted
    omega
  · obtain ⟨c, cs, text, digit⟩ := Decimal.digits_cons z.natAbs
    rw [if_neg negative, text] at same
    obtain ⟨rfl, -⟩ := List.cons.inj same
    cases digit

/-- How the literal of an integer is read as a document of its own, and what is inferred from it. -/
structure ReadsInteger (raw : String) (z : Int) : Prop where
  json : ∀ i : Int64, decode .json raw = .ok (.scalar (.number (.int i))) ↔
    i.toInt = z ∧ raw ≠ "-0"
  minus_zero : raw = "-0" →
    decode .json raw = .ok (.scalar (.number (.float (.zero true))))
  inferred : ∀ i : Int64, i.toInt = z → Scalar.infer raw = .number (.int i)

/-- The literal of an integer is read as that integer in the range of sixty-four bits and as no other
one, unless it is a zero with a minus sign, which is an integer where it is inferred. -/
theorem decode_integerLiteral {raw : String} {z : Int}
    (literal : raw.toList ∈ Decimal.integerLiterals) (denotes : SpellsInteger raw.toList z) :
    ReadsInteger raw z := by
  rcases Decimal.eq_signedDigits_of_mem literal denotes with text | ⟨text, rfl⟩
  · have no_minus : raw ≠ "-0" := by
      rintro rfl
      exact signedDigits_ne_minusZero z text.symm
    constructor
    case json =>
      intro i
      rw [and_iff_left no_minus, ← Json.decode_signedDigits_eq_int_iff text]
      exact mapError_eq_ok_iff
    case minus_zero =>
      intro same
      exact absurd same no_minus
    case inferred =>
      rintro i rfl
      exact infer_eq_iff.2 (.int (.inl text))
  · obtain rfl : raw = "-0" := String.toList_inj.1 text
    have read : decode .json "-0" = .ok (.scalar (.number (.float (.zero true)))) :=
      mapError_eq_ok_iff.2 Json.decode_minusZero
    constructor
    case json =>
      intro i
      constructor
      · intro int
        rw [read] at int
        cases int
      · rintro ⟨-, differs⟩
        exact absurd rfl differs
    case minus_zero =>
      intro _
      exact read
    case inferred =>
      intro i zero
      obtain rfl : i = 0 := Int64.toInt_inj.1 zero
      exact infer_eq_iff.2 (.int (.inr ⟨rfl, rfl⟩))

/-- The least integer of sixty-four bits. -/
theorem decode_integerLiteral_least :
    "-9223372036854775808".toList ∈ Decimal.integerLiterals ∧
      SpellsInteger "-9223372036854775808".toList (-9223372036854775808) ∧
      ReadsInteger "-9223372036854775808" (-9223372036854775808) := by
  have digits : ∀ c ∈ "9223372036854775808".toList, c.isDigit = true := List.all_eq_true.1 rfl
  have literal : "-9223372036854775808".toList ∈ Decimal.integerLiterals :=
    Decimal.mem_optionally_mul.2 (.inr (Decimal.cons_mem_oneOf_mul.2
      ⟨rfl, (Decimal.Numeral.isCanonicalWhole_iff_mem digits).1 rfl⟩))
  have denotes : SpellsInteger "-9223372036854775808".toList (-9223372036854775808) :=
    .minus ⟨List.cons_ne_nil _ _, digits⟩
  exact ⟨literal, denotes, decode_integerLiteral literal denotes⟩

/-- The text `-0` is the literal of a zero that is no integer as a document, but is one wherever it is
inferred. -/
theorem minusZero_no_integer :
    "-0".toList ∈ Decimal.integerLiterals ∧ SpellsInteger "-0".toList 0 ∧
      (∀ i : Int64, decode .json "-0" ≠ .ok (.scalar (.number (.int i)))) ∧
      Scalar.infer "-0" = .number (.int 0) := by
  have digits : ∀ c ∈ ['0'], c.isDigit = true := List.all_eq_true.1 rfl
  refine ⟨?_, .minus ⟨List.cons_ne_nil _ _, digits⟩, ?_, ?_⟩
  · exact Decimal.mem_optionally_mul.2 (.inr (Decimal.cons_mem_oneOf_mul.2
      ⟨rfl, (Decimal.Numeral.isCanonicalWhole_iff_mem digits).1 rfl⟩))
  · intro i int
    cases (mapError_eq_ok_iff.1 int).symm.trans Json.decode_minusZero
  · exact infer_eq_iff.2 (.int (.inr ⟨rfl, rfl⟩))

end ConfigTree
