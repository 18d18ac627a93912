import ConfigTree.Text

/-!
# Classes of characters

Which code points are letters, digits and blanks. Nothing visible of ASCII is blank
(`isBlank_of_toNat`), and what equals a word of letters up to their case is such a word
(`isWord_of_sameLetters`).
-/

namespace ConfigTree.Text

variable {c : Char}

theorem isAlpha_iff :
    c.isAlpha = true ↔ 0x41 ≤ c.toNat ∧ c.toNat ≤ 0x5A ∨ 0x61 ≤ c.toNat ∧ c.toNat ≤ 0x7A := by
  change (decide (0x41 ≤ c.val ∧ c.val ≤ 0x5A) || (decide (0x61 ≤ c.val) && decide (c.val ≤ 0x7A)))
    = true ↔ _
  simp only [Bool.or_eq_true, Bool.and_eq_true, decide_eq_true_eq, UInt32.le_iff_toNat_le]
  exact Iff.rfl

theorem isDigit_iff : c.isDigit = true ↔ 0x30 ≤ c.toNat ∧ c.toNat ≤ 0x39 := by
  simp only [Char.isDigit, Bool.and_eq_true, decide_eq_true_eq, ge_iff_le, UInt32.le_iff_toNat_le]
  exact Iff.rfl

theorem toNat_toLower (c : Char) :
    c.toLower.toNat = if 0x41 ≤ c.toNat ∧ c.toNat ≤ 0x5A then c.toNat + 0x20 else c.toNat := by
  unfold Char.toLower
  simp only [ge_iff_le, UInt32.le_iff_toNat_le]
  split
  · next h =>
    have upper : 0x41 ≤ c.toNat ∧ c.toNat ≤ 0x5A := h
    rw [if_pos upper]
    show (c.val + 32).toNat = c.toNat + 32
    rw [UInt32.toNat_add]
    show (c.toNat + 32) % 0x100000000 = c.toNat + 32
    omega
  · next h => exact (if_neg h).symm

/-- A change of case keeps letters and makes none. -/
theorem isAlpha_toLower (c : Char) : c.toLower.isAlpha = c.isAlpha := by
  rw [Bool.eq_iff_iff, isAlpha_iff, isAlpha_iff, toNat_toLower]
  split <;> omega

/-- The visible characters of ASCII are not blank. -/
theorem isBlank_of_toNat (low : 0x21 ≤ c.toNat) (high : c.toNat ≤ 0x7E) : isBlank c = false := by
  simp only [isBlank, Bool.or_eq_false_iff, Bool.and_eq_false_iff, beq_eq_false_iff_ne,
    decide_eq_false_iff_not]
  omega

theorem isBlank_of_isDigit (h : c.isDigit = true) : isBlank c = false := by
  have bounds := isDigit_iff.1 h
  apply isBlank_of_toNat <;> omega

theorem isBlank_of_isAlpha (h : c.isAlpha = true) : isBlank c = false := by
  have bounds := isAlpha_iff.1 h
  apply isBlank_of_toNat <;> omega

theorem isDigit_of_isAlpha (h : c.isAlpha = true) : c.isDigit = false := by
  have bounds := isAlpha_iff.1 h
  rw [← Bool.not_eq_true, isDigit_iff]
  omega

/-- A text without blanks is not changed by trimming. -/
theorem trim_of_forall {cs : List Char} (h : ∀ c ∈ cs, isBlank c = false) : trim cs = cs := by
  apply trim_eq_self
  · intro c head
    exact h c (List.mem_of_head? head)
  · intro c last
    exact h c (List.mem_of_getLast? last)

/-- A word of letters. -/
structure IsWord (cs : List Char) : Prop where
  ne_nil : cs ≠ []
  letters : ∀ c ∈ cs, c.isAlpha = true

theorem isWord_of_all {cs : List Char} (ne_nil : cs.isEmpty = false)
    (letters : cs.all Char.isAlpha = true) : IsWord cs :=
  ⟨fun nil => by simp [nil] at ne_nil, List.all_eq_true.1 letters⟩

theorem IsWord.trim_eq {cs : List Char} (h : IsWord cs) : trim cs = cs := by
  apply trim_of_forall
  intro c member
  exact isBlank_of_isAlpha (h.letters c member)

/-- What equals a word of letters up to their case is such a word. -/
theorem isWord_of_sameLetters {cs word : List Char} (h : sameLetters cs word = true)
    (letters : IsWord word) : IsWord cs := by
  have same : cs.map Char.toLower = word.map Char.toLower := eq_of_beq h
  constructor
  · rintro rfl
    exact letters.ne_nil (List.map_eq_nil_iff.1 same.symm)
  · intro c member
    have lower : c.toLower ∈ word.map Char.toLower := by
      rw [← same]
      exact List.mem_map_of_mem member
    obtain ⟨d, found, equal⟩ := List.mem_map.1 lower
    rw [← isAlpha_toLower, ← equal, isAlpha_toLower]
    exact letters.letters d found

end ConfigTree.Text
