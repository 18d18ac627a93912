import ConfigTree.Proofs.Path.Append
import ConfigTree.Proofs.Path.Spelling

/-!
# Texts of tokens

Tokenizing loses nothing but the blanks around a path. On solid segments escaping inverts
unescaping (`escapeAfter_unescapeAfter`), so that segments are known from their tokens
(`Token.eq_of_ofSegments?`), and the trimmed path is known from its segments. The texts that arise
are those of `Tokenizable`, which excludes the keys that no path can name: those with a lone escape
before a separator.
-/

namespace ConfigTree.Path

/-- An escape that stands right before a separator follows another escape. -/
def IsPaired (cs : List Char) : Prop :=
  ∀ front back, cs = front ++ escape :: separator :: back → front.getLast? = some escape

/-- Texts that are those of the tokens of some path, where no indices are supplied. -/
structure Tokenizable (texts : List String) : Prop where
  ne_nil : texts ≠ []
  paired : ∀ text ∈ texts, IsPaired text.toList
  inner : ∀ text ∈ texts.dropLast, text.toList.getLast? ≠ some escape
  /-- The first text does not begin with a blank. -/
  first : ∀ text, texts.head? = some text →
    ∀ c, text.toList.head? = some c → Text.isBlank c = false
  /-- The last text does not end in a blank. -/
  last : ∀ text, texts.getLast? = some text →
    ∀ c, text.toList.getLast? = some c → Text.isBlank c = false

theorem hasLoneEscape_eq_false_iff {cs : List Char} :
    hasLoneEscape cs = false ↔
      ∀ front c back, cs = front ++ c :: escape :: separator :: back → c = escape := by
  induction cs with
  | nil => simp [hasLoneEscape]
  | cons d cs ih =>
    rw [hasLoneEscape, Bool.or_eq_false_iff, ih]
    constructor
    · rintro ⟨here, later⟩ front c back whole
      cases front with
      | nil =>
        obtain ⟨rfl, rfl⟩ := List.cons.inj whole
        simpa using here
      | cons f front => exact later front c back (List.cons.inj whole).2
    · intro paired
      constructor
      · by_cases escaping : [escape, separator].isPrefixOf cs = true
        · obtain ⟨back, rfl⟩ := List.isPrefixOf_iff_prefix.1 escaping
          have same := paired [] d back rfl
          simp [same]
        · simp [escaping]
      · intro front c back whole
        exact paired (d :: front) c back (congrArg (d :: ·) whole)

/-- A text has its escapes in pairs when behind a separator it has no lone escape. -/
theorem isPaired_iff {cs : List Char} :
    IsPaired cs ↔ hasLoneEscape (separator :: cs) = false := by
  rw [hasLoneEscape_eq_false_iff]
  constructor
  · intro paired front c back whole
    cases front with
    | nil =>
      have none_before := paired [] back (List.cons.inj whole).2
      cases none_before
    | cons d front =>
      have before := paired (front ++ [c]) back (by simpa using (List.cons.inj whole).2)
      simpa using before
  · rintro paired front back rfl
    rcases List.eq_nil_or_concat front with rfl | ⟨front, c, rfl⟩
    · have same := paired [] separator back rfl
      cases same
    · have same := paired (separator :: front) c back (by simp)
      simp [same]

/-- Where an escape stands before, unescaping keeps the first character. -/
theorem head?_unescapeAfter_true (cs : List Char) : (unescapeAfter true cs).head? = cs.head? := by
  cases cs with
  | nil => rfl
  | cons c cs => rw [unescapeAfter_cons (by simp)]; rfl

/-- An unescaped text begins as the text does, or with a separator that was escaped. -/
theorem head?_unescapeAfter {escaped : Bool} {cs : List Char} {c : Char}
    (h : (unescapeAfter escaped cs).head? = some c) : c = separator ∨ cs.head? = some c := by
  cases cs with
  | nil => cases h
  | cons d cs =>
    by_cases drops : d = escape ∧ escaped = false ∧ cs.head? = some separator
    · obtain ⟨rfl, rfl, next⟩ := drops
      obtain ⟨cs, rfl⟩ := List.head?_eq_some_iff.1 next
      rw [unescapeAfter_escape] at h
      exact .inl (Option.some.inj h).symm
    · rw [unescapeAfter_cons drops] at h
      exact .inr h

theorem getLast?_unescapeAfter (escaped : Bool) (cs : List Char) :
    (unescapeAfter escaped cs).getLast? = cs.getLast? := by
  induction escaped, cs using unescapeAfter.induct with
  | case1 => rfl
  | case2 => rfl
  | case3 escaped c d cs drops ih =>
    obtain ⟨rfl, rfl, rfl⟩ := drops
    rw [unescapeAfter_escape, List.getLast?_cons, ih, List.getLast?_cons_cons, List.getLast?_cons]
  | case4 escaped c d cs keeps ih =>
    rw [unescapeAfter, if_neg keeps, List.getLast?_cons, ih, List.getLast?_cons_cons,
      List.getLast?_cons]
    rfl

/-- On a solid text escaping inverts unescaping: each separator follows an escape, which was
dropped if it stood alone and is put in again. -/
theorem escapeAfter_unescapeAfter {escaped : Bool} {cs : List Char}
    (h : isSolidAfter escaped cs = true) : escapeAfter escaped (unescapeAfter escaped cs) = cs := by
  induction escaped, cs using unescapeAfter.induct with
  | case1 => rfl
  | case2 escaped c =>
    have kept : ¬(c = separator ∧ escaped = false) := by
      rintro ⟨rfl, rfl⟩
      simp [isSolidAfter] at h
    rw [unescapeAfter, escapeAfter, if_neg kept]
    rfl
  | case3 escaped c d cs drops ih =>
    obtain ⟨rfl, rfl, rfl⟩ := drops
    have behind : isSolidAfter false cs = true := by
      rw [isSolidAfter, isSolidAfter] at h
      exact h
    rw [unescapeAfter_escape, escapeAfter, if_pos ⟨rfl, rfl⟩, ih behind]
  | case4 escaped c d cs keeps ih =>
    rw [isSolidAfter, Bool.and_eq_true] at h
    have kept : ¬(c = separator ∧ escaped = false) := by
      rintro ⟨rfl, rfl⟩
      simp at h
    rw [unescapeAfter, if_neg keeps, escapeAfter, if_neg kept, ih h.2]

theorem escapeAfter_unescape {cs : List Char} (h : isSolidAfter false cs = true) :
    escapeAfter false (unescape cs) = cs :=
  escapeAfter_unescapeAfter h

/-- An escaped text begins with an escape or as the text does. -/
theorem head?_escapeAfter_of_some {escaped : Bool} {cs : List Char} {c : Char}
    (h : (escapeAfter escaped cs).head? = some c) : c = escape ∨ cs.head? = some c := by
  cases cs with
  | nil => cases h
  | cons d cs =>
    rw [escapeAfter] at h
    split at h
    · exact .inl (Option.some.inj h).symm
    · exact .inr h

/-- Unescaping leaves no lone escape before a separator. -/
theorem hasLoneEscape_unescapeAfter (d : Char) (cs : List Char) :
    hasLoneEscape (d :: unescapeAfter (d == escape) cs) = false := by
  generalize he : (d == escape) = escaped
  induction escaped, cs using unescapeAfter.induct generalizing d with
  | case1 => simp [unescapeAfter, hasLoneEscape]
  | case2 => simp [unescapeAfter, hasLoneEscape, List.isPrefixOf]
  | case3 escaped c e cs drops ih =>
    obtain ⟨rfl, rfl, rfl⟩ := drops
    rw [unescapeAfter_escape, hasLoneEscape, ih separator rfl]
    simp [List.isPrefixOf, escape, separator]
  | case4 escaped c e cs keeps ih =>
    rw [unescapeAfter, if_neg keeps, hasLoneEscape, ih c rfl, Bool.or_false]
    by_cases closed : c = escape
    · subst closed
      by_cases before : d = escape
      · simp [before]
      · -- an escape that is kept behind another character stands before no separator
        have next : e ≠ separator := by
          intro hs
          exact keeps ⟨rfl, by simp [← he, before], hs⟩
        have head := head?_unescapeAfter_true (e :: cs)
        cases hu : unescapeAfter (escape == escape) (e :: cs) with
        | nil => simp [List.isPrefixOf]
        | cons f fs =>
          rw [beq_self_eq_true] at hu
          rw [hu] at head
          obtain rfl : f = e := Option.some.inj head
          simp [List.isPrefixOf, Ne.symm next]
    · simp [List.isPrefixOf, Ne.symm closed]

theorem isPaired_unescape (cs : List Char) : IsPaired (unescape cs) :=
  isPaired_iff.2 (hasLoneEscape_unescapeAfter separator cs)

theorem unescape_escapeAfter {cs : List Char} (h : IsPaired cs) :
    unescape (escapeAfter false cs) = cs :=
  unescapeAfter_escapeAfter (d := separator) (isPaired_iff.1 h)

namespace Token

/-- The token of a segment that is no placeholder, where indices are supplied. -/
def ofFilled (cs : List Char) : Token :=
  if cs = escapedPlaceholder then .segment "#" else ofSegment cs

/-- The segment that a token was made of, where no indices are supplied. -/
def origin (token : Token) : List Char :=
  escapeAfter false token.text.toList

/-- The segment that a token was made of, where indices are supplied. -/
def filledOrigin : Token → List Char
  | .index _ => placeholder
  | .segment text => if text = "#" then escapedPlaceholder else origin (.segment text)

/-- What fills a segment and those behind it: a placeholder takes the first index, every other
segment takes none. -/
theorem fill?_cons_eq_some {cs : List Char} {rest : List (List Char)} {indices : List Nat}
    {ts : List Token} (h : fill? (cs :: rest) indices = some ts) :
    (∃ i is us, cs = placeholder ∧ indices = i :: is ∧ ts = .index i :: us ∧
      fill? rest is = some us) ∨
    ∃ us, cs ≠ placeholder ∧ ts = ofFilled cs :: us ∧ fill? rest indices = some us := by
  by_cases hc : cs = placeholder
  · subst hc
    cases indices with
    | nil => simp [fill?] at h
    | cons i is =>
      rw [fill?_placeholder] at h
      obtain ⟨us, filled, rfl⟩ := Option.map_eq_some_iff.1 h
      exact .inl ⟨i, is, us, rfl, rfl, rfl, filled⟩
  · rw [fill?_cons_of_ne hc] at h
    obtain ⟨us, filled, rfl⟩ := Option.map_eq_some_iff.1 h
    exact .inr ⟨us, hc, rfl, filled⟩

theorem origin_ofSegment {cs : List Char} (solid : isSolidAfter false cs = true) :
    origin (ofSegment cs) = cs := by
  rw [origin, ofSegment, text, String.toList_ofList]
  exact escapeAfter_unescape solid

theorem map_origin_ofSegment {segments : List (List Char)}
    (solid : ∀ cs ∈ segments, isSolidAfter false cs = true) :
    (segments.map ofSegment).map origin = segments := by
  calc (segments.map ofSegment).map origin
      = segments.map (origin ∘ ofSegment) := List.map_map
    _ = segments.map id := List.map_congr_left fun cs h => origin_ofSegment (solid cs h)
    _ = segments := List.map_id segments

/-- Of the segments that take no index only the escaped placeholder gets the text `#`. -/
theorem filledOrigin_ofFilled {cs : List Char} (solid : isSolidAfter false cs = true)
    (plain : cs ≠ placeholder) : filledOrigin (ofFilled cs) = cs := by
  unfold ofFilled
  split
  · next escaped => exact escaped.symm
  · have whole := origin_ofSegment solid
    rw [ofSegment] at whole ⊢
    rw [filledOrigin, if_neg, whole]
    intro text
    rw [text] at whole
    exact plain whole.symm

theorem eq_map_filledOrigin {segments : List (List Char)} {indices : List Nat} {ts : List Token}
    (solid : ∀ cs ∈ segments, isSolidAfter false cs = true)
    (h : fill? segments indices = some ts) : segments = ts.map filledOrigin := by
  induction segments generalizing indices ts with
  | nil =>
    obtain rfl := Option.some.inj h
    rfl
  | cons cs rest ih =>
    obtain ⟨here, behind⟩ := List.forall_mem_cons.1 solid
    rcases fill?_cons_eq_some h with ⟨i, is, us, rfl, -, rfl, filled⟩ | ⟨us, plain, rfl, filled⟩
    · rw [List.map_cons, ← ih behind filled]
      rfl
    · rw [List.map_cons, ← ih behind filled, filledOrigin_ofFilled here plain]

/-- The segments of a path are known from its tokens. -/
theorem eq_of_ofSegments? {segments segments' : List (List Char)} {indices : List Nat}
    {ts : List Token} (solid : ∀ cs ∈ segments, isSolidAfter false cs = true)
    (solid' : ∀ cs ∈ segments', isSolidAfter false cs = true)
    (h : ofSegments? segments indices = some ts) (h' : ofSegments? segments' indices = some ts) :
    segments = segments' := by
  by_cases without : indices = []
  · subst without
    obtain rfl := Option.some.inj h
    have tokens : segments'.map ofSegment = segments.map ofSegment := Option.some.inj h'
    rw [← map_origin_ofSegment solid, ← tokens, map_origin_ofSegment solid']
  · rw [ofSegments?_of_ne_nil without] at h h'
    rw [eq_map_filledOrigin solid h, eq_map_filledOrigin solid' h']

end Token

/-- A path is known from its tokens and the indices, but for the blanks around it. -/
theorem trim_eq_of_tokenize {p q : String} {indices : List Nat} {ts : List Token}
    (h : tokenize p indices = .ok ts) (h' : tokenize q indices = .ok ts) :
    Text.trim p.toList = Text.trim q.toList := by
  have filled {path : String} (h : tokenize path indices = .ok ts) :
      Token.ofSegments? (split (Text.trim path.toList)) indices = some ts := by
    cases hs : Token.ofSegments? (split (Text.trim path.toList)) indices with
    | none =>
      rw [tokenize_of_ofSegments?_none hs] at h
      cases h
    | some us =>
      rw [tokenize_of_ofSegments? hs] at h
      rw [Except.ok.inj h]
  have same := Token.eq_of_ofSegments? (fun _ => isSolidAfter_of_mem_split)
    (fun _ => isSolidAfter_of_mem_split) (filled h) (filled h')
  calc Text.trim p.toList
      = join (split (Text.trim p.toList)) := (join_split _).symm
    _ = join (split (Text.trim q.toList)) := by rw [same]
    _ = Text.trim q.toList := join_split _

/-- The texts of the tokens of a path are tokenizable: unescaping changes neither the ends of the
segments nor what stands before a separator. -/
theorem tokenizable_of_tokenize {path : String} {texts : List String}
    (h : tokenize path [] = .ok (texts.map .segment)) : Tokenizable texts := by
  have made : texts = (split (Text.trim path.toList)).map fun cs => .ofList (unescape cs) := by
    rw [tokenize_nil] at h
    apply (List.map_inj_right fun _ _ => Token.segment.inj).1
    rw [List.map_map]
    exact (Except.ok.inj h).symm
  have whole := join_split (Text.trim path.toList)
  constructor
  case ne_nil =>
    have cut : split (Text.trim path.toList) ≠ [] := splitAfter_ne_nil false _
    simpa [made] using cut
  case paired =>
    intro text member
    rw [made] at member
    obtain ⟨cs, -, rfl⟩ := List.mem_map.1 member
    rw [String.toList_ofList]
    exact isPaired_unescape cs
  case inner =>
    intro text member
    rw [made, ← List.map_dropLast] at member
    obtain ⟨cs, inner, rfl⟩ := List.mem_map.1 member
    rw [String.toList_ofList, unescape, getLast?_unescapeAfter]
    exact getLast?_of_mem_dropLast_split inner
  case first =>
    intro text head c hc
    rw [made, List.head?_map] at head
    obtain ⟨cs, first, rfl⟩ := Option.map_eq_some_iff.1 head
    obtain ⟨rest, segments⟩ := List.head?_eq_some_iff.1 first
    rw [String.toList_ofList] at hc
    rcases head?_unescapeAfter hc with rfl | hc
    · decide
    · have begins := head?_join_cons hc rest
      rw [← segments, whole] at begins
      exact Text.isBlank_of_head?_trim begins
  case last =>
    intro text ends c hc
    rw [made, List.getLast?_map] at ends
    obtain ⟨cs, last, rfl⟩ := Option.map_eq_some_iff.1 ends
    obtain ⟨front, segments⟩ := List.getLast?_eq_some_iff.1 last
    rw [String.toList_ofList, unescape, getLast?_unescapeAfter] at hc
    have closes := getLast?_join_concat hc front
    rw [← segments, whole] at closes
    exact Text.isBlank_of_getLast?_trim closes

/-- Tokenizable texts are those of the tokens of the path that their escaped forms make. -/
theorem exists_tokenize_of_tokenizable {texts : List String} (h : Tokenizable texts) :
    ∃ path, tokenize path [] = .ok (texts.map .segment) := by
  let segments := texts.map fun text => escapeAfter false text.toList
  have trimmed : Text.trim (join segments) = join segments := by
    apply trim_join
    · intro cs head c hc
      rw [List.head?_map] at head
      obtain ⟨text, first, rfl⟩ := Option.map_eq_some_iff.1 head
      rcases head?_escapeAfter_of_some hc with rfl | hc
      · decide
      · exact h.first text first c hc
    · intro cs ends c hc
      rw [List.getLast?_map] at ends
      obtain ⟨text, last, rfl⟩ := Option.map_eq_some_iff.1 ends
      rw [getLast?_escapeAfter] at hc
      exact h.last text last c hc
  have cut : split (join segments) = segments := by
    apply split_join
    · simpa [segments] using h.ne_nil
    · intro cs member
      obtain ⟨text, -, rfl⟩ := List.mem_map.1 member
      exact isSolidAfter_escapeAfter false text.toList
    · intro cs member
      rw [← List.map_dropLast] at member
      obtain ⟨text, inner, rfl⟩ := List.mem_map.1 member
      rw [getLast?_escapeAfter]
      exact h.inner text inner
  refine ⟨.ofList (join segments), ?_⟩
  rw [tokenize_nil, String.toList_ofList, trimmed, cut, List.map_map]
  apply congrArg Except.ok
  apply List.map_congr_left
  intro text member
  rw [Function.comp_apply, Token.ofSegment, unescape_escapeAfter (h.paired text member),
    String.ofList_toList]

/-- Tokenizing loses nothing but blanks, and the texts that it gives are the tokenizable ones. -/
theorem tokenize_faithful :
    (∀ (indices : List Nat) (p q : String) (ts : List Token), tokenize p indices = .ok ts →
      tokenize q indices = .ok ts → Text.trim p.toList = Text.trim q.toList) ∧
    ∀ texts : List String,
      (∃ path, tokenize path [] = .ok (texts.map .segment)) ↔ Tokenizable texts := by
  constructor
  · intro indices p q ts
    exact trim_eq_of_tokenize
  · intro texts
    constructor
    · rintro ⟨path, read⟩
      exact tokenizable_of_tokenize read
    · exact exists_tokenize_of_tokenizable

/-- A lone escape before a separator is in no text of a token. -/
example : ¬Tokenizable ["a\\.b"] := by
  intro h
  have doubled := h.paired "a\\.b" List.mem_cons_self ['a'] ['b'] rfl
  cases doubled

end ConfigTree.Path
