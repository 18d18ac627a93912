import ConfigTree.Proofs.Path.Texts

/-!
# Placeholders and their indices

The only path that has no tokens is one with more placeholders than the indices that were supplied
for them. Every other path has one token for each segment (`Filled`): the placeholders take the
indices from left to right, no other segment takes one, and what is left over has no effect.
-/

namespace ConfigTree.Path

/-- The tokens that segments have. -/
structure Filled (segments : List (List Char)) (indices : List Nat) (ts : List Token) : Prop where
  one_each : ts.length = segments.length
  /-- Where indices are supplied, a placeholder takes the one whose number is that of the
  placeholders before it. -/
  at_placeholder : indices ≠ [] → ∀ i : Nat, segments[i]? = some placeholder →
    ∃ n, indices[(segments.take i).count placeholder]? = some n ∧ ts[i]? = some (.index n)
  /-- Every other segment stands for a text. -/
  at_other : ∀ (i : Nat) (cs : List Char), segments[i]? = some cs →
    indices = [] ∨ cs ≠ placeholder → ∃ text, ts[i]? = some (.segment text)

namespace Token

variable {segments : List (List Char)} {indices : List Nat} {ts : List Token}

theorem length_of_fill? (h : fill? segments indices = some ts) : ts.length = segments.length := by
  induction segments generalizing indices ts with
  | nil =>
    obtain rfl := Option.some.inj h
    rfl
  | cons cs rest ih =>
    rcases fill?_cons_eq_some h with ⟨i, is, us, -, -, rfl, filled⟩ | ⟨us, -, rfl, filled⟩ <;>
      rw [List.length_cons, List.length_cons, ih filled]

theorem getElem?_of_fill?_placeholder (h : fill? segments indices = some ts) {i : Nat}
    (hi : segments[i]? = some placeholder) :
    ∃ n, indices[(segments.take i).count placeholder]? = some n ∧ ts[i]? = some (.index n) := by
  induction segments generalizing i indices ts with
  | nil => simp at hi
  | cons cs rest ih =>
    rcases fill?_cons_eq_some h with ⟨n, is, us, rfl, rfl, rfl, filled⟩ | ⟨us, plain, rfl, filled⟩
    · cases i with
      | zero => exact ⟨n, rfl, rfl⟩
      | succ i =>
        rw [List.getElem?_cons_succ] at hi
        obtain ⟨m, index, token⟩ := ih filled hi
        refine ⟨m, ?_, token⟩
        rw [List.take_succ_cons, List.count_cons_self, List.getElem?_cons_succ, index]
    · cases i with
      | zero =>
        obtain rfl := Option.some.inj hi
        exact absurd rfl plain
      | succ i =>
        rw [List.getElem?_cons_succ] at hi
        obtain ⟨m, index, token⟩ := ih filled hi
        refine ⟨m, ?_, token⟩
        rw [List.take_succ_cons, List.count_cons_of_ne plain, index]

theorem getElem?_of_fill?_other (h : fill? segments indices = some ts) {i : Nat} {cs : List Char}
    (hi : segments[i]? = some cs) (plain : cs ≠ placeholder) : ts[i]? = some (ofFilled cs) := by
  induction segments generalizing i indices ts with
  | nil => simp at hi
  | cons ds rest ih =>
    rcases fill?_cons_eq_some h with ⟨n, is, us, rfl, -, rfl, filled⟩ | ⟨us, -, rfl, filled⟩
    · cases i with
      | zero =>
        obtain rfl := Option.some.inj hi
        exact absurd rfl plain
      | succ i => exact ih filled hi
    · cases i with
      | zero =>
        obtain rfl := Option.some.inj hi
        rfl
      | succ i => exact ih filled hi

/-- Indices that no placeholder takes have no effect. -/
theorem fill?_take (enough : segments.count placeholder ≤ indices.length) :
    fill? segments (indices.take (segments.count placeholder)) = fill? segments indices := by
  have used : segments.count placeholder =
      (indices.take (segments.count placeholder)).length := by
    rw [List.length_take]
    omega
  have whole := fill?_append used [] (indices.drop (segments.count placeholder))
  rw [List.append_nil, List.take_append_drop] at whole
  rw [whole]
  cases fill? segments (indices.take (segments.count placeholder)) <;> simp [fill?]

theorem exists_ofFilled_eq (cs : List Char) : ∃ text, ofFilled cs = .segment text := by
  unfold ofFilled
  split
  · exact ⟨"#", rfl⟩
  · exact ⟨.ofList (unescape cs), rfl⟩

theorem filled_of_fill? (some_indices : indices ≠ []) (h : fill? segments indices = some ts) :
    Filled segments indices ts := by
  constructor
  case one_each => exact length_of_fill? h
  case at_placeholder =>
    intro _ i hi
    exact getElem?_of_fill?_placeholder h hi
  case at_other =>
    intro i cs hi plain
    obtain ⟨text, token⟩ := exists_ofFilled_eq cs
    refine ⟨text, ?_⟩
    rw [← token]
    exact getElem?_of_fill?_other h hi (plain.resolve_left some_indices)

/-- Without indices every segment stands for a text, a placeholder too. -/
theorem filled_map_ofSegment (segments : List (List Char)) :
    Filled segments [] (segments.map ofSegment) := by
  constructor
  case one_each => exact List.length_map ofSegment
  case at_placeholder =>
    intro some_indices
    exact absurd rfl some_indices
  case at_other =>
    intro i cs hi _
    refine ⟨.ofList (unescape cs), ?_⟩
    rw [List.getElem?_map, hi]
    rfl

/-- Segments have no tokens when there are indices, but too few. -/
theorem ofSegments?_eq_none_iff :
    ofSegments? segments indices = none ↔
      indices ≠ [] ∧ indices.length < segments.count placeholder := by
  by_cases without : indices = []
  · subst without
    simp [ofSegments?]
  · rw [ofSegments?_of_ne_nil without, ← Option.not_isSome_iff_eq_none, isSome_fill?_iff]
    simp [without]

end Token

/-- Whether a path can be read with the indices, and what its tokens are then. -/
structure Outcome (path : String) (indices : List Nat) : Prop where
  fails_iff : (∃ e, tokenize path indices = .error e) ↔
    indices ≠ [] ∧ indices.length < placeholders path
  /-- The error shows the trimmed path and the number of the indices. -/
  error : ∀ e, tokenize path indices = .error e → e.code = some 310 ∧
    ∃ reason, e.cause = .invalidPath (.ofList (Text.trim path.toList)) indices.length reason
  filled : indices = [] ∨ placeholders path ≤ indices.length →
    ∃ ts, tokenize path indices = .ok ts ∧ Filled (split (Text.trim path.toList)) indices ts
  /-- Only as many indices matter as there are placeholders, and that there are any. -/
  beyond : indices ≠ [] → placeholders path ≤ indices.length → ∀ indices' : List Nat,
    indices' ≠ [] → indices'.take (placeholders path) = indices.take (placeholders path) →
    tokenize path indices' = tokenize path indices

variable {path : String} {indices : List Nat}

theorem tokenize_eq_error_iff {e : Error} :
    tokenize path indices = .error e ↔
      (indices ≠ [] ∧ indices.length < placeholders path) ∧
        e = .tooFewIndices (.ofList (Text.trim path.toList)) indices := by
  rw [placeholders, ← Token.ofSegments?_eq_none_iff]
  cases hs : Token.ofSegments? (split (Text.trim path.toList)) indices with
  | none => simp [tokenize_of_ofSegments?_none hs, eq_comm]
  | some ts => simp [tokenize_of_ofSegments? hs]

theorem tokenize_of_take_eq (some_indices : indices ≠ [])
    (enough : placeholders path ≤ indices.length) {indices' : List Nat} (some_others : indices' ≠ [])
    (same : indices'.take (placeholders path) = indices.take (placeholders path)) :
    tokenize path indices' = tokenize path indices := by
  have enough' : placeholders path ≤ indices'.length := by
    have lengths := congrArg List.length same
    rw [List.length_take, List.length_take] at lengths
    omega
  obtain ⟨ts, filled⟩ := Option.isSome_iff_exists.1 (Token.isSome_fill?_iff.2 enough)
  have filled' : Token.fill? (split (Text.trim path.toList)) indices' = some ts := by
    rw [← Token.fill?_take enough', ← placeholders, same, placeholders, Token.fill?_take enough,
      filled]
  rw [← Token.ofSegments?_of_ne_nil some_indices] at filled
  rw [← Token.ofSegments?_of_ne_nil some_others] at filled'
  rw [tokenize_of_ofSegments? filled, tokenize_of_ofSegments? filled']

theorem outcome (path : String) (indices : List Nat) : Outcome path indices := by
  constructor
  case fails_iff =>
    constructor
    · rintro ⟨e, failed⟩
      exact (tokenize_eq_error_iff.1 failed).1
    · intro short
      exact ⟨_, tokenize_eq_error_iff.2 ⟨short, rfl⟩⟩
  case error =>
    intro e failed
    obtain ⟨-, rfl⟩ := tokenize_eq_error_iff.1 failed
    exact ⟨rfl, _, rfl⟩
  case filled =>
    intro enough
    by_cases without : indices = []
    · subst without
      exact ⟨_, tokenize_nil path, Token.filled_map_ofSegment _⟩
    · obtain ⟨ts, filled⟩ := Option.isSome_iff_exists.1
        (Token.isSome_fill?_iff.2 (enough.resolve_left without))
      refine ⟨ts, ?_, Token.filled_of_fill? without filled⟩
      exact tokenize_of_ofSegments? ((Token.ofSegments?_of_ne_nil without _).trans filled)
  case beyond =>
    intro some_indices enough indices' some_others same
    exact tokenize_of_take_eq some_indices enough some_others same

end ConfigTree.Path
