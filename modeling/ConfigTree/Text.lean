/-!
# Words of characters

Texts are scanned as lists of characters. This module holds the character classes and the
trimming operations that every reader shares: `isBlank` is the Unicode property White_Space,
`trim` drops blanks from both ends, and `sameLetters` compares without regard to ASCII case.
-/

namespace ConfigTree.Text

/-- The characters with the Unicode property White_Space. -/
def isBlank (c : Char) : Bool :=
  let n := c.toNat
  (0x9 ≤ n && n ≤ 0xD) || n == 0x20 || n == 0x85 || n == 0xA0 || n == 0x1680 ||
    (0x2000 ≤ n && n ≤ 0x200A) || n == 0x2028 || n == 0x2029 || n == 0x202F || n == 0x205F ||
    n == 0x3000

/-- Drops the leading characters that satisfy `p`. -/
def trimStart (p : Char → Bool) (cs : List Char) : List Char :=
  cs.dropWhile p

/-- Drops the trailing characters that satisfy `p`. -/
def trimEnd (p : Char → Bool) (cs : List Char) : List Char :=
  (cs.reverse.dropWhile p).reverse

/-- Drops the characters that satisfy `p` from both ends. -/
def trimBy (p : Char → Bool) (cs : List Char) : List Char :=
  trimEnd p (trimStart p cs)

/-- Drops the blanks at both ends. -/
def trim (cs : List Char) : List Char :=
  trimBy isBlank cs

/-- Equality up to the case of ASCII letters. -/
def sameLetters (a b : List Char) : Bool :=
  a.map Char.toLower == b.map Char.toLower

/-- The number of bytes of a word. -/
def byteSize (cs : List Char) : Nat :=
  cs.foldl (fun n c => n + c.utf8Size) 0

/-- What follows `head` in `cs`, when `cs` begins with it. -/
def after? (head cs : List Char) : Option (List Char) :=
  if head.isPrefixOf cs then some (cs.drop head.length) else none

/-- The pieces between the occurrences of `separator`; always at least one. -/
def splitOn (separator : Char) : List Char → List (List Char)
  | [] => [[]]
  | c :: cs =>
    if c = separator then [] :: splitOn separator cs
    else match splitOn separator cs with
      | [] => [[c]]
      | piece :: rest => (c :: piece) :: rest

/-- The value of a hexadecimal digit. -/
def hexDigit? (c : Char) : Option Nat :=
  if c.isDigit then some (c.toNat - '0'.toNat)
  else if 'a' ≤ c ∧ c ≤ 'f' then some (c.toNat - 'a'.toNat + 10)
  else if 'A' ≤ c ∧ c ≤ 'F' then some (c.toNat - 'A'.toNat + 10)
  else none

/-- The value of a word of hexadecimal digits; the empty word is zero. -/
def hexValue? (cs : List Char) : Option Nat :=
  cs.foldlM (fun n c => (hexDigit? c).map (16 * n + ·)) 0

/-- The character with code point `n`, if there is one. -/
def char? (n : Nat) : Option Char :=
  if h : n.isValidChar then some (Char.ofNatAux n h) else none

theorem char?_toNat (c : Char) : char? c.toNat = some c := by
  have valid : c.toNat.isValidChar := c.valid
  rw [char?, dif_pos valid]
  rfl

/-- Dropping characters shortens a text or leaves it as it is. -/
theorem length_dropWhile_le (p : Char → Bool) (cs : List Char) :
    (cs.dropWhile p).length ≤ cs.length :=
  (List.dropWhile_suffix p).length_le

theorem trimStart_eq_self {p : Char → Bool} {c : Char} {cs : List Char} (h : p c = false) :
    trimStart p (c :: cs) = c :: cs := by
  simp [trimStart, h]

theorem trimEnd_eq_self {p : Char → Bool} {cs : List Char}
    (h : ∀ c, cs.getLast? = some c → p c = false) : trimEnd p cs = cs := by
  rw [trimEnd]
  cases hr : cs.reverse with
  | nil => rw [List.reverse_eq_nil_iff.1 hr]; rfl
  | cons c rest =>
    have last : cs.getLast? = some c := by rw [← List.head?_reverse, hr]; rfl
    rw [List.dropWhile_cons, if_neg (by simp [h c last]), ← hr, List.reverse_reverse]

/-- A word that neither begins nor ends in a blank is not changed by trimming. -/
theorem trim_eq_self {cs : List Char} (first : ∀ c, cs.head? = some c → isBlank c = false)
    (last : ∀ c, cs.getLast? = some c → isBlank c = false) : trim cs = cs := by
  rw [trim, trimBy]
  cases cs with
  | nil => rfl
  | cons c cs => rw [trimStart_eq_self (first c rfl), trimEnd_eq_self last]

theorem trimEnd_prefix (p : Char → Bool) (cs : List Char) : trimEnd p cs <+: cs := by
  have suffix := List.dropWhile_suffix p (l := cs.reverse)
  rw [← List.reverse_prefix, List.reverse_reverse] at suffix
  exact suffix

/-- A trimmed word does not begin with a blank. -/
theorem isBlank_of_head?_trim {cs : List Char} {c : Char} (h : (trim cs).head? = some c) :
    isBlank c = false := by
  obtain ⟨dropped, whole⟩ := trimEnd_prefix isBlank (trimStart isBlank cs)
  have first : (cs.dropWhile isBlank).head? = some c := by
    rw [← trimStart, ← whole, List.head?_append, ← trimBy, ← trim, h]
    rfl
  have kept := List.head?_dropWhile_not isBlank cs
  rw [first] at kept
  exact kept

/-- A trimmed word does not end in a blank. -/
theorem isBlank_of_getLast?_trim {cs : List Char} {c : Char} (h : (trim cs).getLast? = some c) :
    isBlank c = false := by
  rw [trim, trimBy, trimEnd, List.getLast?_reverse] at h
  have kept := List.head?_dropWhile_not isBlank (trimStart isBlank cs).reverse
  rw [h] at kept
  exact kept

end ConfigTree.Text
