import ConfigTree.Json.Numeral
import ConfigTree.Text

/-!
# Lexemes of JSON

A JSON text is a sequence of lexemes with spaces between them. `Lexeme.ofText?` finds the
sequence; it fails on a character that begins no lexeme, on a string that is not closed, holds a
control character or an escape that means nothing, and on a numeral that is not written as JSON
wants or is out of range.
-/

namespace ConfigTree.Json

/-- A word or mark of a JSON text. -/
inductive Lexeme where
  | openArray
  | closeArray
  | openObject
  | closeObject
  | comma
  | colon
  | null
  | bool (value : Bool)
  | number (value : Numeric)
  | string (value : String)
  deriving DecidableEq, Repr

namespace Quoted

/-- Splits the text behind an opening quote at the closing one; a character behind a backslash
closes nothing. -/
def body? : List Char → Option (List Char × List Char)
  | [] => none
  | '"' :: cs => some ([], cs)
  | '\\' :: c :: cs => (body? cs).map fun (raw, rest) => ('\\' :: c :: raw, rest)
  | c :: cs => (body? cs).map fun (raw, rest) => (c :: raw, rest)

/-- A piece of a string: a character, or a code unit of two bytes. -/
inductive Piece where
  | char (c : Char)
  | codeUnit (n : Nat)
  deriving DecidableEq, Repr

/-- The character that a one-letter escape stands for. -/
def escaped? : Char → Option Char
  | '"' => some '"'
  | '\\' => some '\\'
  | '/' => some '/'
  | 'b' => some '\x08'
  | 'f' => some '\x0c'
  | 'n' => some '\n'
  | 'r' => some '\r'
  | 't' => some '\t'
  | _ => none

/-- The pieces of a string's body. -/
def pieces? : List Char → Option (List Piece)
  | [] => some []
  | '\\' :: 'u' :: a :: b :: c :: d :: cs =>
    (Text.hexValue? [a, b, c, d]).bind fun n => (pieces? cs).map (.codeUnit n :: ·)
  | '\\' :: c :: cs => (escaped? c).bind fun e => (pieces? cs).map (.char e :: ·)
  | c :: cs =>
    if c = '\\' ∨ c.toNat < 0x20 then none else (pieces? cs).map (.char c :: ·)

/-- The character of a high and a low surrogate. -/
def surrogatePair? (high low : Nat) : Option Char :=
  if 0xD800 ≤ high ∧ high < 0xDC00 ∧ 0xDC00 ≤ low ∧ low < 0xE000 then
    Text.char? (0x10000 + (high - 0xD800) * 0x400 + (low - 0xDC00))
  else none

/-- The characters of pieces; a surrogate must be followed by its partner. -/
def chars? : List Piece → Option (List Char)
  | [] => some []
  | .char c :: ps => (chars? ps).map (c :: ·)
  | .codeUnit n :: ps =>
    match Text.char? n with
    | some c => (chars? ps).map (c :: ·)
    | none =>
      match ps with
      | .codeUnit m :: ps => (surrogatePair? n m).bind fun c => (chars? ps).map (c :: ·)
      | _ => none

/-- The text that a string's body stands for. -/
def decode? (raw : List Char) : Option (List Char) :=
  (pieces? raw).bind chars?

end Quoted

namespace Numeral

/-- A numeral's whole part has no leading zero. -/
def isWhole : List Char → Bool
  | [] => false
  | ['0'] => true
  | c :: _ => c != '0'

/-- Splits off a fraction; a point must be followed by a digit. -/
def takeFraction? : List Char → Option (Option (List Char) × List Char)
  | '.' :: cs =>
    let digits := cs.takeWhile Char.isDigit
    if digits.isEmpty then none else some (some digits, cs.dropWhile Char.isDigit)
  | cs => some (none, cs)

/-- Splits off the digits of an exponent; there must be one. -/
def takePower? (descends : Bool) (cs : List Char) :
    Option (Option (Bool × List Char) × List Char) :=
  let digits := cs.takeWhile Char.isDigit
  if digits.isEmpty then none else some (some (descends, digits), cs.dropWhile Char.isDigit)

/-- Splits off an exponent. -/
def takeExponent? : List Char → Option (Option (Bool × List Char) × List Char)
  | c :: cs =>
    if c = 'e' ∨ c = 'E' then
      match cs with
      | '-' :: cs => takePower? true cs
      | '+' :: cs => takePower? false cs
      | cs => takePower? false cs
    else some (none, c :: cs)
  | [] => some (none, [])

/-- Splits off an unsigned numeral. -/
def takeUnsigned? (negative : Bool) (cs : List Char) : Option (Numeral × List Char) :=
  let whole := cs.takeWhile Char.isDigit
  if isWhole whole then
    (takeFraction? (cs.dropWhile Char.isDigit)).bind fun (fraction, rest) =>
      (takeExponent? rest).map fun (exponent, rest) =>
        ({ negative, whole, fraction, exponent }, rest)
  else none

/-- Splits off a numeral. -/
def take? : List Char → Option (Numeral × List Char)
  | '-' :: cs => takeUnsigned? true cs
  | cs => takeUnsigned? false cs

end Numeral

/-- The characters between lexemes. -/
def isSpace (c : Char) : Bool :=
  c == ' ' || c == '\t' || c == '\n' || c == '\r'

namespace Lexeme

/-- Splits off the lexeme at the beginning of a text. -/
def take? : List Char → Option (Lexeme × List Char)
  | '[' :: cs => some (.openArray, cs)
  | ']' :: cs => some (.closeArray, cs)
  | '{' :: cs => some (.openObject, cs)
  | '}' :: cs => some (.closeObject, cs)
  | ',' :: cs => some (.comma, cs)
  | ':' :: cs => some (.colon, cs)
  | 'n' :: 'u' :: 'l' :: 'l' :: cs => some (.null, cs)
  | 't' :: 'r' :: 'u' :: 'e' :: cs => some (.bool true, cs)
  | 'f' :: 'a' :: 'l' :: 's' :: 'e' :: cs => some (.bool false, cs)
  | '"' :: cs =>
    (Quoted.body? cs).bind fun (raw, rest) =>
      (Quoted.decode? raw).map fun s => (.string (.ofList s), rest)
  | cs =>
    (Numeral.take? cs).bind fun (numeral, rest) =>
      numeral.value?.map fun n => (.number n, rest)

end Lexeme

theorem Quoted.length_body? {cs raw rest : List Char} (h : Quoted.body? cs = some (raw, rest)) :
    rest.length < cs.length := by
  fun_induction Quoted.body? cs generalizing raw rest with
  | case1 => simp at h
  | case2 cs =>
    obtain ⟨-, rfl⟩ : [] = raw ∧ cs = rest := by simpa using h
    simp
  | case3 c cs ih =>
    obtain ⟨⟨raw', rest'⟩, hb, he⟩ := Option.map_eq_some_iff.1 h
    obtain ⟨-, rfl⟩ : _ ∧ rest' = rest := by simpa using he
    have := ih hb
    simp only [List.length_cons]
    omega
  | case4 c cs _ _ ih =>
    obtain ⟨⟨raw', rest'⟩, hb, he⟩ := Option.map_eq_some_iff.1 h
    obtain ⟨-, rfl⟩ : _ ∧ rest' = rest := by simpa using he
    have := ih hb
    simp only [List.length_cons]
    omega

namespace Numeral

theorem length_takeFraction? {cs rest : List Char} {fraction : Option (List Char)}
    (h : takeFraction? cs = some (fraction, rest)) : rest.length ≤ cs.length := by
  unfold takeFraction? at h
  split at h
  · next cs =>
    dsimp only at h
    split at h
    · simp at h
    · obtain ⟨-, rfl⟩ : _ ∧ cs.dropWhile Char.isDigit = rest := by simpa using h
      have := Text.length_dropWhile_le Char.isDigit cs
      simp only [List.length_cons]
      omega
  · obtain ⟨-, rfl⟩ : none = fraction ∧ cs = rest := by simpa using h
    exact Nat.le_refl _

theorem length_takePower? {descends : Bool} {cs rest : List Char}
    {power : Option (Bool × List Char)} (h : takePower? descends cs = some (power, rest)) :
    rest.length ≤ cs.length := by
  unfold takePower? at h
  dsimp only at h
  split at h
  · simp at h
  · obtain ⟨-, rfl⟩ : _ ∧ cs.dropWhile Char.isDigit = rest := by simpa using h
    exact Text.length_dropWhile_le _ _

theorem length_takeExponent? {cs rest : List Char} {power : Option (Bool × List Char)}
    (h : takeExponent? cs = some (power, rest)) : rest.length ≤ cs.length := by
  unfold takeExponent? at h
  split at h
  · next c cs =>
    split at h
    · split at h <;>
        · have := length_takePower? h
          simp only [List.length_cons]
          omega
    · obtain ⟨-, rfl⟩ : none = power ∧ c :: cs = rest := by simpa using h
      exact Nat.le_refl _
  · obtain ⟨-, rfl⟩ : none = power ∧ [] = rest := by simpa using h
    exact Nat.le_refl _

theorem length_takeUnsigned? {negative : Bool} {cs rest : List Char} {n : Numeral}
    (h : takeUnsigned? negative cs = some (n, rest)) : rest.length < cs.length := by
  unfold takeUnsigned? at h
  dsimp only at h
  split at h
  · next hw =>
    obtain ⟨⟨fraction, r₁⟩, h₁, h⟩ := Option.bind_eq_some_iff.1 h
    obtain ⟨⟨power, r₂⟩, h₂, h⟩ := Option.map_eq_some_iff.1 h
    obtain ⟨-, rfl⟩ : _ ∧ r₂ = rest := by simpa using h
    have hsplit : (cs.takeWhile Char.isDigit).length + (cs.dropWhile Char.isDigit).length =
        cs.length := by
      rw [← List.length_append, List.takeWhile_append_dropWhile]
    have hpos : (cs.takeWhile Char.isDigit).length ≠ 0 := by
      intro h0
      rw [List.length_eq_zero_iff.1 h0] at hw
      simp [isWhole] at hw
    have : r₁.length ≤ (cs.dropWhile Char.isDigit).length := length_takeFraction? h₁
    have : r₂.length ≤ r₁.length := length_takeExponent? h₂
    omega
  · simp at h

theorem length_take? {cs rest : List Char} {n : Numeral} (h : take? cs = some (n, rest)) :
    rest.length < cs.length := by
  unfold take? at h
  split at h
  · have := length_takeUnsigned? h
    simp only [List.length_cons]
    omega
  · exact length_takeUnsigned? h

end Numeral

namespace Lexeme

/-- A lexeme takes at least one character. -/
theorem length_take? {cs rest : List Char} {l : Lexeme} (h : take? cs = some (l, rest)) :
    rest.length < cs.length := by
  unfold take? at h
  split at h
  case h_10 cs =>
    obtain ⟨⟨raw, r⟩, hb, h⟩ := Option.bind_eq_some_iff.1 h
    obtain ⟨s, -, h⟩ := Option.map_eq_some_iff.1 h
    obtain ⟨-, rfl⟩ : _ ∧ r = rest := by simpa using h
    have := Quoted.length_body? hb
    simp only [List.length_cons]
    omega
  case h_11 cs _ _ _ _ _ _ _ _ _ _ =>
    obtain ⟨⟨n, r⟩, hb, h⟩ := Option.bind_eq_some_iff.1 h
    obtain ⟨v, -, h⟩ := Option.map_eq_some_iff.1 h
    obtain ⟨-, rfl⟩ : _ ∧ r = rest := by simpa using h
    exact Numeral.length_take? hb
  all_goals
    obtain ⟨-, rfl⟩ := Prod.mk.inj (Option.some.inj h)
    simp only [List.length_cons]
    omega

/-- The lexemes of a text. -/
def ofText? (cs : List Char) : Option (List Lexeme) :=
  match _hs : cs.dropWhile isSpace with
  | [] => some []
  | c :: rest =>
    match _ht : take? (c :: rest) with
    | none => none
    | some (l, rest) => (ofText? rest).map (l :: ·)
termination_by cs.length
decreasing_by
  have h₁ := length_take? _ht
  have h₂ := (List.dropWhile_suffix isSpace (l := cs)).length_le
  rw [_hs] at h₂
  exact Nat.lt_of_lt_of_le h₁ h₂

end Lexeme

end ConfigTree.Json
