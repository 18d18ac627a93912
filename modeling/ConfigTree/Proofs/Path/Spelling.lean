import ConfigTree.Path.Token
import ConfigTree.Path.Walk
import ConfigTree.Proofs.Path.Segment

/-!
# Spelling keys

How a key is written as a segment of a path. Each separator that does not follow an escape gets
one, and a key that would be read as something else gets one more escape at its beginning: a word
of digits, a placeholder, a key that begins with an escape, and one that begins with a blank.
Unescaping and dropping the first escape give the key back (`keyOf_unescape_spellKey`), unless
the key holds a lone escape right before a separator.
-/

namespace ConfigTree.Path

/-- Puts an escape before every separator that does not follow one; the flag says whether an
escape stands right before the text. -/
def escapeAfter (escaped : Bool) : List Char → List Char
  | [] => []
  | c :: cs =>
    if c = separator ∧ escaped = false then escape :: c :: escapeAfter false cs
    else c :: escapeAfter (c == escape) cs

/-- Whether a key needs an escape at its beginning. -/
def needsEscape (key : List Char) : Bool :=
  (!key.isEmpty && key.all Char.isDigit) || key == placeholder ||
    key.head?.any fun c => c == escape || Text.isBlank c

/-- The segment of a path that stands for a key. -/
def spellKey (key : List Char) : List Char :=
  if needsEscape key then escape :: escapeAfter false key else escapeAfter false key

/-- Whether an escape that follows another character than an escape stands right before a
separator. -/
def hasLoneEscape : List Char → Bool
  | [] => false
  | c :: cs => (c != escape && [escape, separator].isPrefixOf cs) || hasLoneEscape cs

/-- Where the text does not begin with a separator, it does not matter what stands before. -/
theorem escapeAfter_of_head {cs : List Char} (h : cs.head? ≠ some separator) (a b : Bool) :
    escapeAfter a cs = escapeAfter b cs := by
  cases cs with
  | nil => rfl
  | cons c cs =>
    have hc : c ≠ separator := fun he => h (by rw [he]; rfl)
    rw [escapeAfter, escapeAfter, if_neg (fun hs => hc hs.1), if_neg (fun hs => hc hs.1)]

theorem head?_escapeAfter {cs : List Char} (h : cs.head? ≠ some separator) (escaped : Bool) :
    (escapeAfter escaped cs).head? = cs.head? := by
  cases cs with
  | nil => rfl
  | cons c cs =>
    have hc : c ≠ separator := fun he => h (by rw [he]; rfl)
    rw [escapeAfter, if_neg (fun hs => hc hs.1)]
    rfl

/-- Behind an escape, and only there, an escaped text can begin with a separator. -/
theorem head?_escapeAfter_separator {escaped : Bool} {cs : List Char}
    (h : (escapeAfter escaped cs).head? = some separator) :
    escaped = true ∧ cs.head? = some separator := by
  cases cs with
  | nil => cases h
  | cons c cs =>
    rw [escapeAfter] at h
    split at h
    · cases Option.some.inj h
    · next kept =>
      obtain rfl : c = separator := Option.some.inj h
      exact ⟨by simpa using kept, rfl⟩

theorem getLast?_escapeAfter (escaped : Bool) (cs : List Char) :
    (escapeAfter escaped cs).getLast? = cs.getLast? := by
  induction cs generalizing escaped with
  | nil => rfl
  | cons c cs ih =>
    rw [escapeAfter]
    split
    · rw [List.getLast?_cons, List.getLast?_cons, ih, List.getLast?_cons]
      rfl
    · rw [List.getLast?_cons, ih, List.getLast?_cons]

/-- An escaped text is solid. -/
theorem isSolidAfter_escapeAfter (escaped : Bool) (cs : List Char) :
    isSolidAfter escaped (escapeAfter escaped cs) = true := by
  induction cs generalizing escaped with
  | nil => rfl
  | cons c cs ih =>
    rw [escapeAfter]
    split
    · next cut =>
      obtain ⟨rfl, rfl⟩ := cut
      rw [isSolidAfter, isSolidAfter]
      exact ih false
    · next kept =>
      rw [isSolidAfter, ih, Bool.and_true]
      cases escaped with
      | true => simp
      | false => simpa using kept

/-- Unescaping inverts escaping. What stands before the text matters: a lone escape at its end
would be taken for one that was put in. -/
theorem unescapeAfter_escapeAfter {d : Char} {cs : List Char}
    (h : hasLoneEscape (d :: cs) = false) :
    unescapeAfter (d == escape) (escapeAfter (d == escape) cs) = cs := by
  induction cs generalizing d with
  | nil => rfl
  | cons c cs ih =>
    obtain ⟨here, later⟩ := Bool.or_eq_false_iff.1 h
    rw [escapeAfter]
    split
    · next cut =>
      obtain ⟨rfl, hd⟩ := cut
      rw [hd, unescapeAfter_escape]
      exact congrArg (separator :: ·) (ih later)
    · rw [unescapeAfter_cons, ih later]
      rintro ⟨rfl, hd, hs⟩
      -- an escape that the unescaping would drop stands alone before a separator
      obtain ⟨-, hs⟩ := head?_escapeAfter_separator hs
      cases cs with
      | nil => cases hs
      | cons e cs =>
        obtain rfl : e = separator := Option.some.inj hs
        rw [beq_eq_false_iff_ne] at hd
        simp [hd] at here

/-- A key that needs an escape at its beginning does not begin with a separator. -/
theorem head?_ne_separator_of_needsEscape {key : List Char} (h : needsEscape key = true) :
    key.head? ≠ some separator := by
  cases key with
  | nil => simp
  | cons c cs =>
    intro he
    obtain rfl : c = separator := Option.some.inj he
    have plain : needsEscape (separator :: cs) = false := rfl
    rw [plain] at h
    cases h

/-- Unescaping leaves of the spelling of a key only the escape at its beginning. -/
theorem unescape_spellKey {key : List Char} (h : hasLoneEscape key = false) :
    unescape (spellKey key) = if needsEscape key then escape :: key else key := by
  rw [spellKey, unescape]
  split
  · next needs =>
    have head := head?_ne_separator_of_needsEscape needs
    have inverse : unescapeAfter true (escapeAfter true key) = key :=
      unescapeAfter_escapeAfter (d := escape) (by simpa [hasLoneEscape] using h)
    rw [unescapeAfter_cons (by rw [head?_escapeAfter head]; exact fun hs => head hs.2.2),
      escapeAfter_of_head head false true]
    exact congrArg (escape :: ·) inverse
  · next plain =>
    -- without an escape at its beginning the key begins in the open, as behind a separator
    refine unescapeAfter_escapeAfter (d := separator) ?_
    rw [hasLoneEscape, h, Bool.or_false]
    cases key with
    | nil => rfl
    | cons c cs =>
      have hc : c ≠ escape := by
        rintro rfl
        simp [needsEscape] at plain
      simp [List.isPrefixOf, Ne.symm hc]

theorem isSolidAfter_spellKey (key : List Char) : isSolidAfter false (spellKey key) = true := by
  rw [spellKey]
  split
  · exact isSolidAfter_true (isSolidAfter_escapeAfter false key)
  · exact isSolidAfter_escapeAfter false key

theorem getLast?_spellKey {key : List Char} (c : Char)
    (h : (spellKey key).getLast? = some c) : key.getLast? = some c := by
  rw [spellKey] at h
  split at h
  · next needs =>
    cases key with
    | nil => simp [needsEscape, placeholder] at needs
    | cons d key =>
      rw [List.getLast?_cons, getLast?_escapeAfter, List.getLast?_cons] at h
      rw [List.getLast?_cons]
      exact h
  · rwa [getLast?_escapeAfter] at h

/-- The spelling of a key does not begin with a blank. -/
theorem head?_spellKey {key : List Char} (c : Char) (h : (spellKey key).head? = some c) :
    Text.isBlank c = false := by
  rw [spellKey] at h
  split at h
  · obtain rfl : escape = c := Option.some.inj h
    decide
  · next plain =>
    cases key with
    | nil => cases h
    | cons d key =>
      rw [escapeAfter] at h
      split at h
      · obtain rfl : escape = c := Option.some.inj h
        decide
      · obtain rfl : d = c := Option.some.inj h
        have hd : (d == escape || Text.isBlank d) = false := by
          rw [Bool.not_eq_true, needsEscape, Bool.or_eq_false_iff] at plain
          exact plain.2
        exact (Bool.or_eq_false_iff.1 hd).2

/-- What is left of the spelling of a key when it is read as a token is no word of digits. -/
theorem natural?_unescape_spellKey {key : List Char} (h : hasLoneEscape key = false) :
    Decimal.natural? (unescape (spellKey key)) = none := by
  rw [unescape_spellKey h]
  split
  · rfl
  · next plain =>
    rw [Decimal.natural?, if_neg]
    intro digits
    exact plain (by rw [needsEscape, digits]; rfl)

/-- Unescaping and dropping the first escape give back the key that was spelled. -/
theorem keyOf_unescape_spellKey {key : List Char} (h : hasLoneEscape key = false) :
    keyOf (unescape (spellKey key)) = key := by
  rw [unescape_spellKey h]
  split
  · rfl
  · next plain =>
    cases key with
    | nil => rfl
    | cons c cs =>
      rw [keyOf, if_neg]
      rintro rfl
      simp [needsEscape] at plain

end ConfigTree.Path
