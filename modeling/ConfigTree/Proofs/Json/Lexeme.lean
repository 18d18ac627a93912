import ConfigTree.Json.Lexeme
import ConfigTree.Json.Print
import ConfigTree.Proofs.Decimal.Digits

/-!
# Reading back what was written: lexemes

Each lexeme is read back from its spelling: strings whatever characters they hold, and integers of
sixty-four bits where the text does not go on as a numeral. A text that consists of spellings and
spaces is read as the sequence of its lexemes (`ofText?_of_spelled`).
-/

namespace ConfigTree.Json

/-- A character is spelled by a short escape, by its code, or by itself. -/
theorem escapeChar_cases (c : Char) :
    (∃ e, escapeChar c = ['\\', e] ∧ e ≠ 'u' ∧ Quoted.escaped? e = some c) ∨
    (c.toNat < 0x20 ∧ escapeChar c =
      ['\\', 'u', '0', '0', hexDigit (c.toNat / 16), hexDigit (c.toNat % 16)]) ∨
    (c ≠ '"' ∧ c ≠ '\\' ∧ 0x20 ≤ c.toNat ∧ escapeChar c = [c]) := by
  by_cases short : c ∈ ['"', '\\', '\x08', '\t', '\n', '\x0c', '\r']
  · left
    simp only [List.mem_cons, List.not_mem_nil, or_false] at short
    rcases short with rfl | rfl | rfl | rfl | rfl | rfl | rfl <;> exact ⟨_, rfl, by decide, rfl⟩
  · right
    simp only [List.mem_cons, List.not_mem_nil, or_false, not_or] at short
    obtain ⟨quote, backslash, h₁, h₂, h₃, h₄, h₅⟩ := short
    rw [escapeChar, if_neg quote, if_neg backslash, if_neg h₁, if_neg h₂, if_neg h₃, if_neg h₄,
      if_neg h₅]
    by_cases control : c.toNat < 0x20
    · exact .inl ⟨control, if_pos control⟩
    · exact .inr ⟨quote, backslash, by omega, if_neg control⟩

namespace Quoted

/-- Characters other than quotes and backslashes are not special in a string. -/
theorem body?_cons {c : Char} (quote : c ≠ '"') (backslash : c ≠ '\\') (cs : List Char) :
    body? (c :: cs) = (body? cs).map fun p => (c :: p.1, p.2) := by
  rw [body?.eq_def]
  split <;> simp_all

theorem hexDigit_plain : ∀ n < 16, hexDigit n ≠ '"' ∧ hexDigit n ≠ '\\' := by
  decide

/-- The spelling of a character does not close the string. -/
theorem body?_escapeChar (c : Char) (cs : List Char) :
    body? (escapeChar c ++ cs) = (body? cs).map fun p => (escapeChar c ++ p.1, p.2) := by
  obtain ⟨e, he, -, -⟩ | ⟨control, he⟩ | ⟨quote, backslash, -, he⟩ := escapeChar_cases c
  · rw [he]
    rfl
  · obtain ⟨q₁, b₁⟩ := hexDigit_plain (c.toNat / 16) (by omega)
    obtain ⟨q₂, b₂⟩ := hexDigit_plain (c.toNat % 16) (by omega)
    have zero := body?_cons (c := '0') (by decide) (by decide)
    rw [he]
    simp only [List.cons_append, List.nil_append, body?, zero, body?_cons q₁ b₁, body?_cons q₂ b₂,
      Option.map_map, Function.comp_def]
  · rw [he]
    exact body?_cons quote backslash cs

/-- The spelling of a word ends at the quote behind it. -/
theorem body?_escaped (cs rest : List Char) :
    body? (cs.flatMap escapeChar ++ '"' :: rest) = some (cs.flatMap escapeChar, rest) := by
  induction cs with
  | nil => rfl
  | cons c cs ih =>
    rw [List.flatMap_cons, List.append_assoc, body?_escapeChar, ih]
    rfl

theorem hexValue?_hexDigit :
    ∀ n < 0x20, Text.hexValue? ['0', '0', hexDigit (n / 16), hexDigit (n % 16)] = some n := by
  decide

theorem pieces?_cons {c : Char} (backslash : c ≠ '\\') (printable : 0x20 ≤ c.toNat)
    (cs : List Char) : pieces? (c :: cs) = (pieces? cs).map (.char c :: ·) := by
  rw [pieces?.eq_def]
  split
  · simp_all
  · simp_all
  · simp_all
  · next heq =>
    obtain ⟨rfl, rfl⟩ := List.cons.inj heq
    rw [if_neg]
    rintro (h | h)
    · exact backslash h
    · omega

theorem pieces?_escape {c e : Char} (code : e ≠ 'u') (h : escaped? e = some c) (cs : List Char) :
    pieces? ('\\' :: e :: cs) = (pieces? cs).map (.char c :: ·) := by
  rw [pieces?.eq_def]
  split
  · simp_all
  · simp_all
  · next heq =>
    simp only [List.cons.injEq, true_and] at heq
    obtain ⟨rfl, rfl⟩ := heq
    rw [h]
    rfl
  · next other heq =>
    obtain ⟨rfl, rfl⟩ := List.cons.inj heq
    exact absurd rfl (other e cs rfl)

theorem chars?_codeUnit {c : Char} {n : Nat} (h : Text.char? n = some c) (ps : List Piece) :
    chars? (.codeUnit n :: ps) = (chars? ps).map (c :: ·) := by
  rw [chars?.eq_def]
  simp only [h]

/-- The spelling of a character stands for the character. -/
theorem decode?_escapeChar (c : Char) (cs : List Char) :
    decode? (escapeChar c ++ cs) = (decode? cs).map (c :: ·) := by
  have plain (ps : Option (List Piece)) :
      ((ps.map (Piece.char c :: ·)).bind chars?) = (ps.bind chars?).map (c :: ·) := by
    cases ps <;> rfl
  obtain ⟨e, he, code, hc⟩ | ⟨control, he⟩ | ⟨-, backslash, printable, he⟩ := escapeChar_cases c
  · rw [he, decode?, decode?]
    exact (congrArg (Option.bind · chars?) (pieces?_escape code hc cs)).trans (plain _)
  · rw [he, decode?, decode?]
    simp only [List.cons_append, List.nil_append, pieces?, hexValue?_hexDigit _ control,
      Option.bind_some]
    cases pieces? cs with
    | none => rfl
    | some ps => exact chars?_codeUnit (Text.char?_toNat c) ps
  · rw [he, decode?, decode?]
    exact (congrArg (Option.bind · chars?) (pieces?_cons backslash printable cs)).trans (plain _)

/-- A word is read back from its spelling. -/
theorem decode?_escaped (cs : List Char) : decode? (cs.flatMap escapeChar) = some cs := by
  induction cs with
  | nil => rfl
  | cons c cs ih =>
    rw [List.flatMap_cons, decode?_escapeChar, ih]
    rfl

end Quoted

/-- A text that does not go on as a numeral. -/
def EndsNumeral (rest : List Char) : Prop :=
  ∀ c, rest.head? = some c → c.isDigit = false ∧ c ≠ '.' ∧ c ≠ 'e' ∧ c ≠ 'E'

theorem endsNumeral_nil : EndsNumeral [] := nofun

namespace Numeral

variable {rest : List Char}

theorem takeWhile_digits (ends : EndsNumeral rest) (n : Nat) :
    (Decimal.digits n ++ rest).takeWhile Char.isDigit = Decimal.digits n := by
  rw [List.takeWhile_append_of_pos fun _ h => Decimal.isDigit_of_mem_digits h]
  cases rest with
  | nil => rw [List.takeWhile_nil, List.append_nil]
  | cons c cs =>
    rw [List.takeWhile_cons, if_neg (by simp [(ends c rfl).1]), List.append_nil]

theorem dropWhile_digits (ends : EndsNumeral rest) (n : Nat) :
    (Decimal.digits n ++ rest).dropWhile Char.isDigit = rest := by
  rw [List.dropWhile_append_of_pos fun _ h => Decimal.isDigit_of_mem_digits h]
  cases rest with
  | nil => rfl
  | cons c cs => rw [List.dropWhile_cons, if_neg (by simp [(ends c rfl).1])]

theorem isWhole_digits (n : Nat) : isWhole (Decimal.digits n) = true := by
  cases n with
  | zero => rfl
  | succ n =>
    have zero := Decimal.head?_digits_ne_zero (Nat.succ_pos n)
    obtain ⟨c, cs, hd, -⟩ := Decimal.digits_cons (n + 1)
    rw [hd] at zero ⊢
    rw [isWhole.eq_def]
    split <;> simp_all

theorem takeFraction?_of_ends (ends : EndsNumeral rest) :
    takeFraction? rest = some (none, rest) := by
  cases rest with
  | nil => rfl
  | cons c cs =>
    rw [takeFraction?.eq_def]
    split
    · next heq =>
      obtain ⟨rfl, -⟩ := List.cons.inj heq
      exact absurd rfl (ends '.' rfl).2.1
    · rfl

theorem takeExponent?_of_ends (ends : EndsNumeral rest) :
    takeExponent? rest = some (none, rest) := by
  cases rest with
  | nil => rfl
  | cons c cs =>
    have power : ¬(c = 'e' ∨ c = 'E') := by
      rintro (rfl | rfl)
      · exact (ends _ rfl).2.2.1 rfl
      · exact (ends _ rfl).2.2.2 rfl
    simp only [takeExponent?, if_neg power]

/-- The numeral of an integer. -/
def ofInt (z : Int) : Numeral where
  negative := decide (z < 0)
  whole := Decimal.digits z.natAbs
  fraction := none
  exponent := none

theorem takeUnsigned?_digits (ends : EndsNumeral rest) (negative : Bool) (n : Nat) :
    takeUnsigned? negative (Decimal.digits n ++ rest) =
      some ({ negative, whole := Decimal.digits n, fraction := none, exponent := none }, rest) := by
  simp only [takeUnsigned?, takeWhile_digits ends, dropWhile_digits ends, isWhole_digits, if_true,
    takeFraction?_of_ends ends, takeExponent?_of_ends ends, Option.bind_some, Option.map_some]

/-- An integer is split off from a text that does not go on as a numeral. -/
theorem take?_signedDigits (ends : EndsNumeral rest) (z : Int) :
    take? (Decimal.signedDigits z ++ rest) = some (ofInt z, rest) := by
  rw [Decimal.signedDigits, ofInt]
  by_cases negative : z < 0
  · rw [if_pos negative, decide_eq_true negative]
    exact takeUnsigned?_digits ends true z.natAbs
  · rw [if_neg negative, decide_eq_false negative, take?.eq_def]
    split
    · next heq =>
      -- a minus sign is no digit
      obtain ⟨c, cs, hd, digit⟩ := Decimal.digits_cons z.natAbs
      rw [hd] at heq
      obtain ⟨rfl, -⟩ := List.cons.inj heq
      cases digit
    · exact takeUnsigned?_digits ends false z.natAbs

theorem accumulate_eq {cs : List Char} {n : Nat} (h : Nat.ofDigitChars 10 cs n ≤ ceiling) :
    accumulate n cs = (Nat.ofDigitChars 10 cs n, []) := by
  induction cs generalizing n with
  | nil => rfl
  | cons c cs ih =>
    rw [Nat.ofDigitChars_cons] at h ⊢
    have fits := Nat.le_trans (Decimal.le_ofDigitChars _ cs) h
    rw [Nat.mul_comm] at h fits ⊢
    rw [accumulate]
    simp only [if_pos fits]
    exact ih h

/-- The numeral of an integer of sixty-four bits denotes it exactly. -/
theorem value?_ofInt {z : Int} (low : -0x8000000000000000 ≤ z)
    (high : z ≤ 0x7FFFFFFFFFFFFFFF) :
    (ofInt z).value? = some (.integer z) := by
  have denoted : Nat.ofDigitChars 10 (Decimal.digits z.natAbs) 0 = z.natAbs :=
    Decimal.value_digits z.natAbs
  have fits : Nat.ofDigitChars 10 (Decimal.digits z.natAbs) 0 ≤ ceiling := by
    rw [denoted, ceiling]
    omega
  have read : (ofInt z).value? = some (integer (z < 0) z.natAbs) := by
    simp only [value?, ofInt, accumulate_eq fits, denoted]
    rfl
  rw [read, integer]
  by_cases negative : z < 0
  · have range : 0 < z.natAbs ∧ z.natAbs ≤ 0x8000000000000000 := by omega
    have opposite : -(z.natAbs : Int) = z := by omega
    rw [decide_eq_true negative, if_neg (by decide), if_pos range, opposite]
  · have same : (z.natAbs : Int) = z := by omega
    rw [decide_eq_false negative, if_pos (by decide), same]

/-- The numeral of an integer begins with a minus sign or a digit. -/
theorem signedDigits_cons (z : Int) :
    ∃ c cs, Decimal.signedDigits z = c :: cs ∧ (c = '-' ∨ c.isDigit = true) := by
  rw [Decimal.signedDigits]
  by_cases negative : z < 0
  · rw [if_pos negative]
    exact ⟨_, _, rfl, .inl rfl⟩
  · rw [if_neg negative]
    obtain ⟨c, cs, hd, digit⟩ := Decimal.digits_cons z.natAbs
    exact ⟨c, cs, hd, .inr digit⟩

end Numeral

namespace Lexeme

/-- The spelling of a lexeme. -/
def spelling : Lexeme → List Char
  | .openArray => ['[']
  | .closeArray => [']']
  | .openObject => ['{']
  | .closeObject => ['}']
  | .comma => [',']
  | .colon => [':']
  | .null => ['n', 'u', 'l', 'l']
  | .bool true => ['t', 'r', 'u', 'e']
  | .bool false => ['f', 'a', 'l', 's', 'e']
  | .number n => n.text doubleStyle
  | .string s => quote s

/-- A lexeme that is read back where a text follows its spelling. An integer must be in range, and
the text must not go on as a numeral; of doubles nothing is said. -/
def Legible (rest : List Char) : Lexeme → Prop
  | .number (.integer z) => -0x8000000000000000 ≤ z ∧ z ≤ 0x7FFFFFFFFFFFFFFF ∧ EndsNumeral rest
  | .number (.double _) => False
  | _ => True

variable {rest : List Char} {l : Lexeme}

theorem take?_numeral {c : Char} (h : c = '-' ∨ c.isDigit = true) (cs : List Char) :
    take? (c :: cs) = (Numeral.take? (c :: cs)).bind fun p => p.1.value?.map (.number ·, p.2) := by
  rw [take?.eq_def]
  split
  case h_11 => rfl
  all_goals
    next heq =>
    obtain ⟨rfl, -⟩ := List.cons.inj heq
    exact absurd h (by decide)

/-- The numeral of an integer is a lexeme if it has a value. -/
theorem take?_signedDigits (ends : EndsNumeral rest) (z : Int) :
    take? (Decimal.signedDigits z ++ rest) =
      (Numeral.ofInt z).value?.map fun n => (.number n, rest) := by
  obtain ⟨c, cs, hd, sign⟩ := Numeral.signedDigits_cons z
  have numeral := Numeral.take?_signedDigits ends z
  rw [hd, List.cons_append] at numeral ⊢
  rw [take?_numeral sign, numeral, Option.bind_some]

theorem dropWhile_signedDigits (z : Int) (rest : List Char) :
    (Decimal.signedDigits z ++ rest).dropWhile isSpace = Decimal.signedDigits z ++ rest := by
  obtain ⟨c, cs, hd, sign⟩ := Numeral.signedDigits_cons z
  have visible : ¬isSpace c = true := by
    intro space
    simp only [isSpace, Bool.or_eq_true, beq_iff_eq] at space
    rcases space with ((rfl | rfl) | rfl) | rfl <;> exact absurd sign (by decide)
  rw [hd, List.cons_append, List.dropWhile_cons, if_neg visible]

/-- A lexeme is split off behind its spelling. -/
theorem take?_spelling (h : Legible rest l) : take? (l.spelling ++ rest) = some (l, rest) := by
  cases l with
  | number n =>
    cases n with
    | double x => cases h
    | integer z =>
      obtain ⟨low, high, ends⟩ := h
      rw [spelling, Numeric.text, take?_signedDigits ends, Numeral.value?_ofInt low high]
      rfl
  | string s =>
    rw [spelling, quote, List.cons_append, List.append_assoc, take?]
    simp only [List.cons_append, List.nil_append, Quoted.body?_escaped, Option.bind_some,
      Quoted.decode?_escaped, Option.map_some, String.ofList_toList]
  | bool b => cases b <;> rfl
  | _ => rfl

/-- A lexeme does not begin with a space. -/
theorem dropWhile_spelling (h : Legible rest l) :
    (l.spelling ++ rest).dropWhile isSpace = l.spelling ++ rest := by
  cases l with
  | number n =>
    cases n with
    | double x => cases h
    | integer z => exact dropWhile_signedDigits z rest
  | bool b => cases b <;> rfl
  | _ => rfl

/-- A text that consists of the spellings of lexemes with spaces between them. -/
inductive Spelled : List Char → List Lexeme → Prop
  | nil : Spelled [] []
  | space {c : Char} {cs : List Char} {ls : List Lexeme} (h : isSpace c = true)
      (rest : Spelled cs ls) : Spelled (c :: cs) ls
  | lexeme {cs : List Char} {l : Lexeme} {ls : List Lexeme} (h : Legible cs l)
      (rest : Spelled cs ls) : Spelled (l.spelling ++ cs) (l :: ls)

theorem ofText?_nil : ofText? [] = some [] := by
  rw [ofText?]
  rfl

theorem ofText?_space {c : Char} (h : isSpace c = true) (cs : List Char) :
    ofText? (c :: cs) = ofText? cs := by
  rw [ofText?, ofText?, List.dropWhile_cons, if_pos h]

/-- Where a text does not begin with a space, its first lexeme is read. -/
theorem ofText?_eq_bind {cs : List Char} (some_text : cs ≠ [])
    (visible : cs.dropWhile isSpace = cs) :
    ofText? cs = (take? cs).bind fun p => (ofText? p.2).map (p.1 :: ·) := by
  rw [ofText?.eq_def, visible]
  split
  · exact absurd rfl some_text
  · split
    · next ht =>
      rw [ht]
      rfl
    · next ht =>
      rw [ht]
      rfl

theorem ofText?_spelling (h : Legible rest l) :
    ofText? (l.spelling ++ rest) = (ofText? rest).map (l :: ·) := by
  have taken := take?_spelling h
  have some_text : l.spelling ++ rest ≠ [] := by
    intro none
    rw [none] at taken
    cases taken
  rw [ofText?_eq_bind some_text (dropWhile_spelling h), taken]
  rfl

/-- Spelled lexemes are read in their order. -/
theorem ofText?_of_spelled {cs : List Char} {ls : List Lexeme} (h : Spelled cs ls) :
    ofText? cs = some ls := by
  induction h with
  | nil => exact ofText?_nil
  | space space _ ih => rw [ofText?_space space, ih]
  | lexeme legible _ ih =>
    rw [ofText?_spelling legible, ih]
    rfl

end Lexeme

end ConfigTree.Json
