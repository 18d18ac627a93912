import ConfigTree.Proofs.Path.Append
import ConfigTree.Proofs.Path.Spelling
import ConfigTree.Proofs.Text.Classes

/-!
# Addresses

A user who knows a tree goes down from node to node: by a key into a map, by a position into a
list. `navigate` follows such legs directly, `address` writes them as a path. Outside of XML
every node that legs lead to has a path that leads there too: the address is always read, whatever
indices are supplied, and the walk along its tokens is the navigation along its legs.
-/

namespace ConfigTree.Path

/-- A nonempty word of digits; it may begin with zeros. -/
structure DigitWord where
  chars : List Char
  ne_nil : chars ≠ []
  digits : ∀ c ∈ chars, c.isDigit = true

/-- The number that a word of digits denotes. -/
def DigitWord.value (w : DigitWord) : Nat :=
  Decimal.value w.chars

/-- A way from a node to one of its parts. -/
inductive Leg where
  /-- To the value under a key of a map. -/
  | key (name : String)
  /-- To the item at a position of a list. -/
  | position (word : DigitWord)

namespace Leg

/-- The part of a node that a leg leads to; the value under a key counts only if it is not
null. -/
def select : Leg → Tree → Option Tree
  | .key name, .map es => (Entries.find? name es).filter fun t => !t.isNull
  | .position word, .list ts => ts[word.value]?
  | _, _ => none

/-- The segment that stands for a leg. -/
def spelling : Leg → List Char
  | .key name => spellKey name.toList
  | .position word => word.chars

/-- The step that a leg is. -/
def step : Leg → Step
  | .key name => .key name
  | .position word => .position word.value

end Leg

/-- The node that legs lead to from `root`. -/
def navigate (root : Tree) : List Leg → Option Tree
  | [] => some root
  | leg :: legs => (leg.select root).bind fun t => navigate t legs

/-- The path that stands for legs. -/
def address (legs : List Leg) : String :=
  .ofList (join (legs.map Leg.spelling))

/-- Legs that have an address. -/
structure Addressable (legs : List Leg) : Prop where
  ne_nil : legs ≠ []
  /-- No key has a lone escape right before a separator. -/
  paired : ∀ name, .key name ∈ legs → hasLoneEscape name.toList = false
  /-- No key but the last leg ends in an escape. -/
  inner : ∀ name, .key name ∈ legs.dropLast → name.toList.getLast? ≠ some escape
  /-- The last leg does not end in a blank. -/
  last : ∀ name, legs.getLast? = some (.key name) →
    ∀ c, name.toList.getLast? = some c → Text.isBlank c = false

namespace DigitWord

theorem natural?_chars (w : DigitWord) : Decimal.natural? w.chars = some w.value := by
  have all : w.chars.all Char.isDigit = true := List.all_eq_true.2 w.digits
  simp [Decimal.natural?, w.ne_nil, all, value]

/-- Digits are neither separators nor escapes, so that unescaping keeps them. -/
theorem unescapeAfter_digits {cs : List Char} (h : ∀ c ∈ cs, c.isDigit = true) (escaped : Bool) :
    unescapeAfter escaped cs = cs := by
  induction cs generalizing escaped with
  | nil => rfl
  | cons c cs ih =>
    have later : ∀ d ∈ cs, d.isDigit = true := by
      intro d hd
      exact h d (List.mem_cons_of_mem _ hd)
    rw [unescapeAfter_cons, ih later]
    rintro ⟨rfl, -⟩
    exact absurd (h escape List.mem_cons_self) (by decide)

theorem isSolidAfter_digits {cs : List Char} (h : ∀ c ∈ cs, c.isDigit = true) (escaped : Bool) :
    isSolidAfter escaped cs = true := by
  induction cs generalizing escaped with
  | nil => rfl
  | cons c cs ih =>
    have later : ∀ d ∈ cs, d.isDigit = true := by
      intro d hd
      exact h d (List.mem_cons_of_mem _ hd)
    have plain : c ≠ separator := by
      rintro rfl
      exact absurd (h separator List.mem_cons_self) (by decide)
    rw [isSolidAfter, ih later]
    simp [plain]

end DigitWord

namespace Leg

/-- The condition on keys that makes a single leg readable. -/
def IsPaired (leg : Leg) : Prop :=
  ∀ name, leg = .key name → hasLoneEscape name.toList = false

/-- The token of a leg's segment is the leg's step. -/
theorem step_ofSegment_spelling {leg : Leg} (h : leg.IsPaired) :
    (Token.ofSegment leg.spelling).step = leg.step := by
  cases leg with
  | key name =>
    have hn := h name rfl
    simp only [spelling, Token.ofSegment, Token.step, String.toList_ofList,
      natural?_unescape_spellKey hn, keyOf_unescape_spellKey hn, String.ofList_toList, step]
  | position word =>
    simp only [spelling, Token.ofSegment, Token.step, String.toList_ofList, unescape,
      DigitWord.unescapeAfter_digits word.digits, word.natural?_chars, step]

/-- No leg is spelled as a placeholder. -/
theorem spelling_ne_placeholder {leg : Leg} (h : leg.IsPaired) : leg.spelling ≠ placeholder := by
  intro he
  have same := step_ofSegment_spelling h
  rw [he] at same
  cases leg with
  | key name =>
    obtain rfl : "#" = name := Step.key.inj same
    cases he
  | position word => cases same

/-- Where indices are supplied, an escaped placeholder still stands for the key that it spells. -/
theorem step_of_spelling_escapedPlaceholder {leg : Leg} (h : leg.IsPaired)
    (he : leg.spelling = escapedPlaceholder) : (Token.segment "#").step = leg.step := by
  rw [← step_ofSegment_spelling h, he]
  rfl

theorem isSolidAfter_spelling (leg : Leg) : isSolidAfter false leg.spelling = true := by
  cases leg with
  | key name => exact isSolidAfter_spellKey _
  | position word => exact DigitWord.isSolidAfter_digits word.digits false

/-- A segment that stands for a leg does not begin with a blank. -/
theorem head?_spelling (leg : Leg) (c : Char) (h : leg.spelling.head? = some c) :
    Text.isBlank c = false := by
  cases leg with
  | key name => exact head?_spellKey c h
  | position word => exact Text.isBlank_of_isDigit (word.digits c (List.mem_of_mem_head? h))

end Leg

namespace Addressable

variable {legs : List Leg}

theorem isPaired (h : Addressable legs) {leg : Leg} (hl : leg ∈ legs) : leg.IsPaired :=
  fun name he => h.paired name (he ▸ hl)

/-- The segments of an address are the spellings of its legs. -/
theorem split_address (h : Addressable legs) :
    split (address legs).toList = legs.map Leg.spelling := by
  rw [address, String.toList_ofList]
  apply split_join
  · simpa using h.ne_nil
  · intro cs hcs
    obtain ⟨leg, -, rfl⟩ := List.mem_map.1 hcs
    exact leg.isSolidAfter_spelling
  · intro cs hcs he
    rw [← List.map_dropLast] at hcs
    obtain ⟨leg, hl, rfl⟩ := List.mem_map.1 hcs
    cases leg with
    | key name => exact h.inner name hl (getLast?_spellKey escape he)
    | position word =>
      exact absurd (word.digits escape (List.mem_of_getLast? he)) (by decide)

/-- An address has no blanks around it. -/
theorem trim_address (h : Addressable legs) :
    Text.trim (address legs).toList = (address legs).toList := by
  rw [address, String.toList_ofList]
  apply trim_join
  · intro cs hcs c hc
    rw [List.head?_map] at hcs
    obtain ⟨leg, -, rfl⟩ := Option.map_eq_some_iff.1 hcs
    exact leg.head?_spelling c hc
  · intro cs hcs c hc
    rw [List.getLast?_map] at hcs
    obtain ⟨leg, hleg, rfl⟩ := Option.map_eq_some_iff.1 hcs
    cases leg with
    | key name => exact h.last name hleg c (getLast?_spellKey c hc)
    | position word => exact Text.isBlank_of_isDigit (word.digits c (List.mem_of_getLast? hc))

end Addressable

/-- The segments of legs become tokens with the steps of the legs; no index is taken. -/
theorem fill?_spelling {legs : List Leg} (h : ∀ leg ∈ legs, leg.IsPaired) (indices : List Nat) :
    ∃ tokens, Token.fill? (legs.map Leg.spelling) indices = some tokens ∧
      tokens.map Token.step = legs.map Leg.step := by
  induction legs with
  | nil => exact ⟨[], rfl, rfl⟩
  | cons leg legs ih =>
    have later : ∀ l ∈ legs, l.IsPaired := by
      intro l hl
      exact h l (List.mem_cons_of_mem _ hl)
    obtain ⟨tokens, filled, steps⟩ := ih later
    have paired : leg.IsPaired := h leg List.mem_cons_self
    rw [List.map_cons, Token.fill?_cons_of_ne (Leg.spelling_ne_placeholder paired), filled]
    refine ⟨_, rfl, ?_⟩
    rw [List.map_cons, List.map_cons, steps]
    split
    · next he => rw [Leg.step_of_spelling_escapedPlaceholder paired he]
    · rw [Leg.step_ofSegment_spelling paired]

theorem ofSegments?_spelling {legs : List Leg} (h : ∀ leg ∈ legs, leg.IsPaired)
    (indices : List Nat) :
    ∃ tokens, Token.ofSegments? (legs.map Leg.spelling) indices = some tokens ∧
      tokens.map Token.step = legs.map Leg.step := by
  rw [Token.ofSegments?]
  split
  · refine ⟨_, rfl, ?_⟩
    rw [List.map_map, List.map_map]
    apply List.map_congr_left
    intro leg hl
    exact Leg.step_ofSegment_spelling (h leg hl)
  · exact fill?_spelling h indices

/-- Without a content key, a walk depends on the steps of its tokens only, and goes from part to
part as navigation does. -/
theorem walk_eq_navigate {format : Format} (plain : format.rules.contentKey = none)
    {tokens : List Token} {legs : List Leg} (steps : tokens.map Token.step = legs.map Leg.step)
    (root : Tree) : walk format root tokens = navigate root legs := by
  induction legs generalizing tokens root with
  | nil =>
    rw [List.map_nil, List.map_eq_nil_iff] at steps
    rw [steps]
    rfl
  | cons leg legs ih =>
    cases tokens with
    | nil => cases steps
    | cons token tokens =>
      obtain ⟨here, rest⟩ := List.cons.inj steps
      have content (t : Tree) : content? format t = none := by rw [content?, plain]; rfl
      have part : navigate root (leg :: legs) =
          (leg.select root).bind fun t => walk format t tokens := by
        simp only [navigate, ih rest]
      rw [part, walk, here]
      cases leg with
      | key name => cases root <;> simp only [content, Leg.step, child?, Leg.select]
      | position word => cases root <;> rfl

/-- Legs of any kind have an address that leads where they lead: tokenizing it succeeds with
every list of indices, and outside of XML the walk along the tokens is the navigation along the
legs. -/
theorem walk_address {legs : List Leg} (h : Addressable legs) (indices : List Nat) :
    ∃ tokens, tokenize (address legs) indices = .ok tokens ∧
      ∀ (format : Format) (root : Tree), format ≠ .xml →
        walk format root tokens = navigate root legs := by
  obtain ⟨tokens, read, steps⟩ := ofSegments?_spelling (fun _ => h.isPaired) indices
  refine ⟨tokens, ?_, ?_⟩
  · simp only [tokenize, h.trim_address, h.split_address, read]
  · intro format root hf
    have plain : format.rules.contentKey = none := by
      cases format with
      | xml => exact absurd rfl hf
      | json | yaml | properties => rfl
    exact walk_eq_navigate plain steps root

/-- Legs that take every kind of escape: separators, a position with a leading zero, a key of
digits, a placeholder, an empty key, a blank and an escape at the beginning of a key, and an
escape at the end of the last one. -/
def escapedLegs : List Leg :=
  [.key "a..b", .position ⟨['0', '1'], List.cons_ne_nil _ _, List.all_eq_true.1 rfl⟩, .key "42",
    .key "#", .key "", .key " c\\\\.d", .key "\\.e\\"]

theorem addressable_escapedLegs : Addressable escapedLegs where
  ne_nil := by simp [escapedLegs]
  paired := by
    intro name h
    simp only [escapedLegs, List.mem_cons, Leg.key.injEq, reduceCtorEq, false_or,
      List.not_mem_nil, or_false] at h
    rcases h with rfl | rfl | rfl | rfl | rfl | rfl <;> decide
  inner := by
    intro name h
    simp only [escapedLegs, List.dropLast, List.mem_cons, Leg.key.injEq, reduceCtorEq, false_or,
      List.not_mem_nil, or_false] at h
    rcases h with rfl | rfl | rfl | rfl | rfl <;> decide
  last := by
    intro name h c hc
    obtain rfl : "\\.e\\" = name := by simpa [escapedLegs] using h
    obtain rfl : '\\' = c := by simpa using hc
    decide

/-- The address of `escapedLegs` leads through the levels of a tree to the node below them. -/
theorem walk_address_escapedLegs :
    address escapedLegs = "a\\.\\.b.01.\\42.\\#..\\ c\\\\.d.\\\\.e\\" ∧
      Addressable escapedLegs ∧ Format.json ≠ .xml ∧
      ∃ tokens, tokenize (address escapedLegs) [5] = .ok tokens ∧
        walk .json (.map [("a..b", .list [.null, .map [("42", .map [("#", .map [("", .map
          [(" c\\\\.d", .map [("\\.e\\", .text "end")])])])])]])]) tokens =
            some (.text "end") := by
  refine ⟨by decide, addressable_escapedLegs, by decide, ?_⟩
  obtain ⟨tokens, read, walked⟩ := walk_address addressable_escapedLegs [5]
  exact ⟨tokens, read, (walked .json _ (by decide)).trans rfl⟩

end ConfigTree.Path
