import ConfigTree.Proofs.Binary.Rounding
import ConfigTree.Proofs.Decimal.Grammar
import ConfigTree.Proofs.Tree.Inference
import ConfigTree.Tree.Display

/-!
# Which texts stand for which scalars

A scalar is inferred from a text by its spelling as a whole (`inferred_by_grammar`): `StandsFor`
lists the spellings of flags, of the null, of 64-bit integers and of doubles, and every other text
stands for itself. Numerals spell doubles as long as they are not rounded to infinity
(`spellsDouble_iff`). What is inferred is shown as a text that stands for it again
(`standsFor_display`), a double excepted, whose text may spell an integer.
-/

namespace ConfigTree

open Binary (Double)
open Decimal (Numeral plainNumerals signedDigits)

/-- The double nearest to the number that a text spells. -/
def Binary.Double.read? (cs : List Char) : Option Double :=
  (Numeral.read? cs).map ofNumeral

/-- A text that is a word up to the case of ASCII letters. -/
def IsWordOf (word raw : String) : Prop :=
  Text.sameLetters raw.toList word.toList = true

instance (word raw : String) : Decidable (IsWordOf word raw) :=
  inferInstanceAs (Decidable (_ = true))

/-- A text with which a 64-bit integer is written, or a zero with a minus sign. -/
def SpellsInt64 (raw : String) (i : Int64) : Prop :=
  raw.toList = signedDigits i.toInt ∨ raw = "-0" ∧ i = 0

/-- A plain numeral with a finite value that is no 64-bit integer. -/
structure SpellsDouble (raw : String) (x : Double) : Prop where
  plain : raw.toList ∈ plainNumerals
  no_integer : ∀ i, ¬SpellsInt64 raw i
  value : Double.read? raw.toList = some x
  finite : x.isFinite = true

/-- Which scalar a text stands for. -/
inductive StandsFor (raw : String) : Scalar → Prop where
  | flag {b : Bool} (spelled : IsWordOf (if b then "true" else "false") raw) :
      StandsFor raw (.bool b)
  | null (spelled : IsWordOf "null" raw) : StandsFor raw .null
  | int {i : Int64} (spelled : SpellsInt64 raw i) : StandsFor raw (.number (.int i))
  | double {x : Double} (spelled : SpellsDouble raw x) : StandsFor raw (.number (.float x))
  | text (no_flag : ∀ b : Bool, ¬IsWordOf (if b then "true" else "false") raw)
      (no_null : ¬IsWordOf "null" raw) (no_int : ∀ i, ¬SpellsInt64 raw i)
      (no_double : ∀ x, ¬SpellsDouble raw x) : StandsFor raw (.text raw)

variable {raw : String}

/-- A plain numeral that is no 64-bit integer spells the double nearest to its fraction, if that is
less than half a spacing beyond the greatest double. -/
theorem spellsDouble_iff {x : Double} : SpellsDouble raw x ↔
    raw.toList ∈ plainNumerals ∧ (∀ i, ¬SpellsInt64 raw i) ∧
      ∃ n, Numeral.read? raw.toList = some n ∧ |n.fraction| < 2 ^ 1024 - 2 ^ 970 ∧
        Double.ofNumeral n = x := by
  constructor
  · rintro ⟨plain, no_integer, value, finite⟩
    obtain ⟨n, read, rfl⟩ := Option.map_eq_some_iff.1 value
    exact ⟨plain, no_integer, n, read, (Double.rounds_ofNumeral n).isFinite_iff.1 finite, rfl⟩
  · rintro ⟨plain, no_integer, n, read, small, rfl⟩
    exact ⟨plain, no_integer, Option.map_eq_some_iff.2 ⟨n, read, rfl⟩,
      (Double.rounds_ofNumeral n).isFinite_iff.2 small⟩

theorem isWord_of_isWordOf {word : String} (letters : Text.IsWord word.toList)
    (same : IsWordOf word raw) : Text.IsWord raw.toList :=
  Text.isWord_of_sameLetters same letters

theorem isPlain_of_isWordOf {word : String} (letters : Text.IsWord word.toList)
    (same : IsWordOf word raw) : Numeral.isPlain raw.toList = false :=
  Numeral.isPlain_of_isWord (isWord_of_isWordOf letters same)

theorem not_isWordOf_of_isPlain {word : String} (plain : Numeral.isPlain raw.toList = true)
    (letters : Text.IsWord word.toList) : ¬IsWordOf word raw := by
  intro same
  rw [isPlain_of_isWordOf letters same] at plain
  cases plain

/-- A text is at most one word. -/
theorem not_isWordOf_of_isWordOf {word word' : String} (same : IsWordOf word raw)
    (differs : word.toList.map Char.toLower ≠ word'.toList.map Char.toLower) :
    ¬IsWordOf word' raw := by
  intro same'
  exact differs ((eq_of_beq same).symm.trans (eq_of_beq same'))

theorem boolOfText?_eq_some_iff {b : Bool} :
    boolOfText? raw.toList = some b ↔ IsWordOf (if b then "true" else "false") raw := by
  have unfolded : boolOfText? raw.toList = if IsWordOf "true" raw then some true
      else if IsWordOf "false" raw then some false else none := rfl
  have apart : IsWordOf "false" raw → ¬IsWordOf "true" raw := by
    intro same
    exact not_isWordOf_of_isWordOf same (by decide)
  rw [unfolded]
  cases b with
  | true => by_cases yes : IsWordOf "true" raw <;> simp [yes]
  | false =>
    by_cases no : IsWordOf "false" raw
    · simp [no, apart no]
    · by_cases yes : IsWordOf "true" raw <;> simp [no, yes]

/-- A flag is a word of letters. -/
theorem isWord_flag (b : Bool) : Text.IsWord (if b then "true" else "false").toList := by
  cases b <;> exact Text.isWord_of_all rfl rfl

theorem isWord_null : Text.IsWord "null".toList :=
  Text.isWord_of_all rfl rfl

theorem spellsInt64_iff {i : Int64} :
    SpellsInt64 raw i ↔ Numeral.isPlain raw.toList = true ∧
      (Decimal.integer? raw.toList).bind int64? = some i := by
  have read : (Decimal.integer? raw.toList).bind int64? = some i ↔
      Decimal.SpellsInteger raw.toList i.toInt := by
    rw [← Decimal.integer?_eq_some_iff, Option.bind_eq_some_iff]
    simp only [int64?_eq_some_iff]
    constructor
    · rintro ⟨z, read, rfl⟩
      exact read
    · intro read
      exact ⟨_, read, rfl⟩
  have zero : i.toInt = 0 ↔ i = 0 := Int64.toInt_inj (y := 0)
  have minus : raw.toList = "-0".toList ↔ raw = "-0" := String.toList_inj
  rw [read, Numeral.isPlain_and_spells_iff, zero, SpellsInt64, ← minus]
  rfl

/-- What is inferred from a plain numeral. -/
theorem infer_of_isPlain (plain : Numeral.isPlain raw.toList = true) :
    Scalar.infer raw = ((Number.ofText? raw.toList).map Scalar.number).getD (.text raw) := by
  have no_flag : boolOfText? raw.toList = none := by
    rw [Option.eq_none_iff_forall_ne_some]
    intro b flag
    exact not_isWordOf_of_isPlain plain (isWord_flag b) (boolOfText?_eq_some_iff.1 flag)
  have no_null : Text.sameLetters raw.toList ['n', 'u', 'l', 'l'] = false :=
    Bool.eq_false_iff.2 (not_isWordOf_of_isPlain plain isWord_null)
  simp only [Scalar.infer, no_flag, no_null, plain, Bool.false_eq_true, if_false, if_true]
  cases Number.ofText? raw.toList <;> rfl

/-- What is inferred from any other text. -/
theorem infer_of_not_isPlain (plain : Numeral.isPlain raw.toList = false) :
    Scalar.infer raw = ((boolOfText? raw.toList).map Scalar.bool).getD
      (if IsWordOf "null" raw then .null else .text raw) := by
  simp only [Scalar.infer, plain, Bool.false_eq_true, if_false]
  cases boolOfText? raw.toList <;> rfl

theorem exists_read?_of_isPlain (plain : Numeral.isPlain raw.toList = true) :
    ∃ x, Double.read? raw.toList = some x := by
  rw [← Option.isSome_iff_exists, Double.read?, Option.isSome_map]
  exact Numeral.isSome_read?_of_isPlain plain

/-- A plain numeral is read as the integer that it spells. -/
theorem ofText?_of_spellsInt64 {i : Int64} (h : SpellsInt64 raw i) :
    Number.ofText? raw.toList = some (.int i) := by
  rw [Number.ofText?, (spellsInt64_iff.1 h).2]

/-- A plain numeral that spells no integer of sixty-four bits is read as a finite double. -/
theorem ofText?_of_not_spellsInt64 {x : Double} (plain : Numeral.isPlain raw.toList = true)
    (no_int : ∀ i, ¬SpellsInt64 raw i) (value : Double.read? raw.toList = some x) :
    Number.ofText? raw.toList = if x.isFinite then some (.float x) else none := by
  have none : (Decimal.integer? raw.toList).bind int64? = none := by
    rw [Option.eq_none_iff_forall_ne_some]
    intro i read
    exact no_int i (spellsInt64_iff.2 ⟨plain, read⟩)
  rw [Double.read?] at value
  rw [Number.ofText?, none, value]
  rfl

theorem standsFor_infer (raw : String) : StandsFor raw (.infer raw) := by
  cases plain : Numeral.isPlain raw.toList with
  | true =>
    rw [infer_of_isPlain plain]
    by_cases int : ∃ i, SpellsInt64 raw i
    · obtain ⟨i, int⟩ := int
      rw [ofText?_of_spellsInt64 int]
      exact .int int
    · have no_int : ∀ i, ¬SpellsInt64 raw i := fun i int' => int ⟨i, int'⟩
      obtain ⟨x, value⟩ := exists_read?_of_isPlain plain
      rw [ofText?_of_not_spellsInt64 plain no_int value]
      cases finite : x.isFinite with
      | true => exact .double ⟨Numeral.isPlain_iff_mem.1 plain, no_int, value, finite⟩
      | false =>
        refine .text (fun b => not_isWordOf_of_isPlain plain (isWord_flag b))
          (not_isWordOf_of_isPlain plain isWord_null) no_int ?_
        intro y double
        obtain rfl := Option.some.inj (value.symm.trans double.value)
        rw [double.finite] at finite
        cases finite
  | false =>
    have no_int : ∀ i, ¬SpellsInt64 raw i := by
      intro i int
      rw [(spellsInt64_iff.1 int).1] at plain
      cases plain
    have no_double : ∀ x, ¬SpellsDouble raw x := by
      intro x double
      rw [Numeral.isPlain_iff_mem.2 double.plain] at plain
      cases plain
    rw [infer_of_not_isPlain plain]
    cases flag : boolOfText? raw.toList with
    | some b => exact .flag (boolOfText?_eq_some_iff.1 flag)
    | none =>
      by_cases null : IsWordOf "null" raw
      · rw [if_pos null]
        exact .null null
      · rw [if_neg null]
        refine .text ?_ null no_int no_double
        intro b same
        rw [boolOfText?_eq_some_iff.2 same] at flag
        cases flag

/-- A text stands for the scalar that is inferred from it, and for no other. -/
theorem infer_eq_iff {s : Scalar} : Scalar.infer raw = s ↔ StandsFor raw s := by
  constructor
  · rintro rfl
    exact standsFor_infer raw
  · intro h
    cases h with
    | flag spelled =>
      rw [infer_of_not_isPlain (isPlain_of_isWordOf (isWord_flag _) spelled),
        boolOfText?_eq_some_iff.2 spelled]
      rfl
    | null spelled =>
      have no_flag : boolOfText? raw.toList = none := by
        rw [Option.eq_none_iff_forall_ne_some]
        intro b flag
        refine not_isWordOf_of_isWordOf spelled ?_ (boolOfText?_eq_some_iff.1 flag)
        cases b <;> decide
      rw [infer_of_not_isPlain (isPlain_of_isWordOf isWord_null spelled), no_flag,
        if_pos spelled]
      rfl
    | int spelled =>
      rw [infer_of_isPlain (spellsInt64_iff.1 spelled).1, ofText?_of_spellsInt64 spelled]
      rfl
    | double spelled =>
      have plain := Numeral.isPlain_iff_mem.2 spelled.plain
      rw [infer_of_isPlain plain,
        ofText?_of_not_spellsInt64 plain spelled.no_integer spelled.value, spelled.finite]
      rfl
    | text no_flag no_null no_int no_double =>
      have inferred := standsFor_infer raw
      generalize Scalar.infer raw = s at inferred
      cases inferred with
      | flag spelled => exact absurd spelled (no_flag _)
      | null spelled => exact absurd spelled no_null
      | int spelled => exact absurd spelled (no_int _)
      | double spelled => exact absurd spelled (no_double _)
      | text => rfl

theorem spellsInt64_display (i : Int64) : SpellsInt64 (Number.int i).display i :=
  .inl String.toList_ofList

/-- Only a double may be displayed as a text that stands for something else. -/
theorem standsFor_display {s : Scalar} (h : StandsFor raw s)
    (no_float : ∀ x, s ≠ .number (.float x)) : StandsFor s.display s := by
  cases h with
  | @flag b =>
    apply StandsFor.flag
    cases b <;> decide
  | null => exact .null (by decide)
  | int => exact .int (spellsInt64_display _)
  | double => exact absurd rfl (no_float _)
  | text no_flag no_null no_int no_double => exact .text no_flag no_null no_int no_double

/-- What is inferred from a text is read off its spelling. -/
structure InferredByGrammar (raw : String) : Prop where
  inferred : ∀ s, Scalar.infer raw = s ↔ StandsFor raw s
  value : raw.toList ∈ plainNumerals → ∃ x, Double.read? raw.toList = some x
  again : (∀ x, Scalar.infer raw ≠ .number (.float x)) →
    Scalar.infer (Scalar.infer raw).display = Scalar.infer raw

theorem inferred_by_grammar :
    (∀ raw, InferredByGrammar raw) ∧
      ∀ i : Int64, Scalar.infer (Number.int i).display = .number (.int i) := by
  constructor
  · intro raw
    constructor
    case inferred =>
      intro s
      exact infer_eq_iff
    case value =>
      intro plain
      exact exists_read?_of_isPlain (Numeral.isPlain_iff_mem.2 plain)
    case again =>
      intro no_float
      exact infer_eq_iff.2 (standsFor_display (standsFor_infer raw) no_float)
  · intro i
    exact infer_eq_iff.2 (.int (spellsInt64_display i))

example : ["-0", "01", "1.", "nuLL", "9223372036854775807"].map Scalar.infer =
    [.number (.int 0), .text "01", .text "1.", .null, .number (.int 9223372036854775807)] := by
  decide +kernel

end ConfigTree
