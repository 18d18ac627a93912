import ConfigTree.Path.Walk
import ConfigTree.Proofs.Path.Segment

/-!
# Appended paths

A path below another one is written behind it and a separator. If the first path does not end in
an escape, nothing is read across the joint: the segments of the two paths follow each other
(`split_append`), the placeholders of the first path take the first indices (`fill?_append`), and so
the tokens follow each other too. Outside of XML a walk along both is a walk along the one and from
there along the other (`walk_append`).
-/

namespace ConfigTree.Path

namespace Token

/-- Where indices are supplied, a segment that is no placeholder takes none. -/
theorem fill?_cons_of_ne {cs : List Char} (h : cs ≠ placeholder) (rest : List (List Char))
    (indices : List Nat) :
    fill? (cs :: rest) indices = (fill? rest indices).map
      ((if cs = escapedPlaceholder then .segment "#" else .ofSegment cs) :: ·) := by
  simp only [fill?, if_neg h]
  split <;> rfl

theorem fill?_placeholder (rest : List (List Char)) (i : Nat) (indices : List Nat) :
    fill? (placeholder :: rest) (i :: indices) = (fill? rest indices).map (.index i :: ·) := rfl

/-- Segments are filled as long as there is an index for each placeholder. -/
theorem isSome_fill?_iff {segments : List (List Char)} {indices : List Nat} :
    (fill? segments indices).isSome = true ↔ segments.count placeholder ≤ indices.length := by
  induction segments generalizing indices with
  | nil => simp [fill?]
  | cons cs rest ih =>
    by_cases h : cs = placeholder
    · subst h
      rw [List.count_cons_self]
      cases indices with
      | nil => simp [fill?]
      | cons i indices => rw [fill?_placeholder, Option.isSome_map, ih, List.length_cons]; omega
    · rw [fill?_cons_of_ne h, Option.isSome_map, ih, List.count_cons_of_ne h]

/-- Segments that use up their indices leave the other indices to the segments behind. -/
theorem fill?_append {segments : List (List Char)} {indices : List Nat}
    (h : segments.count placeholder = indices.length) (later : List (List Char))
    (more : List Nat) :
    fill? (segments ++ later) (indices ++ more) =
      (fill? segments indices).bind fun ts => (fill? later more).map (ts ++ ·) := by
  induction segments generalizing indices with
  | nil =>
    obtain rfl := List.length_eq_zero_iff.1 h.symm
    cases hl : fill? later more <;> simp [fill?, hl]
  | cons cs rest ih =>
    have onward (token : Token) {indices : List Nat}
        (h : rest.count placeholder = indices.length) :
        (fill? (rest ++ later) (indices ++ more)).map (token :: ·) =
          ((fill? rest indices).map (token :: ·)).bind fun ts =>
            (fill? later more).map (ts ++ ·) := by
      rw [ih h]
      cases fill? rest indices <;> cases fill? later more <;> rfl
    by_cases hc : cs = placeholder
    · subst hc
      rw [List.count_cons_self] at h
      cases indices with
      | nil => simp at h
      | cons i indices => exact onward (.index i) (Nat.succ.inj h)
    · rw [List.count_cons_of_ne hc] at h
      rw [List.cons_append, fill?_cons_of_ne hc, fill?_cons_of_ne hc]
      exact onward _ h

theorem ofSegments?_of_ne_nil {indices : List Nat} (h : indices ≠ [])
    (segments : List (List Char)) : ofSegments? segments indices = fill? segments indices := by
  rw [ofSegments?, if_neg (by simpa using h)]

end Token

/-- The number of segments of a path that are placeholders. -/
def placeholders (path : String) : Nat :=
  (split (Text.trim path.toList)).count placeholder

/-- The path `q` below the path `p`. -/
def append (p q : String) : String :=
  .ofList (Text.trim p.toList ++ separator :: Text.trim q.toList)

variable {p q path : String} {indices : List Nat}

theorem tokenize_of_ofSegments? {tokens : List Token}
    (h : Token.ofSegments? (split (Text.trim path.toList)) indices = some tokens) :
    tokenize path indices = .ok tokens := by
  simp only [tokenize, h]

theorem tokenize_of_ofSegments?_none
    (h : Token.ofSegments? (split (Text.trim path.toList)) indices = none) :
    tokenize path indices =
      .error (.tooFewIndices (.ofList (Text.trim path.toList)) indices) := by
  simp only [tokenize, h]

/-- Without indices every path has tokens, one for each segment. -/
theorem tokenize_nil (path : String) :
    tokenize path [] = .ok ((split (Text.trim path.toList)).map Token.ofSegment) :=
  tokenize_of_ofSegments? rfl

/-- Appended paths have no blanks around them. -/
theorem trim_append (p q : String) :
    Text.trim (append p q).toList = Text.trim p.toList ++ separator :: Text.trim q.toList := by
  rw [append, String.toList_ofList]
  apply Text.trim_eq_self
  · intro c hc
    rw [List.head?_append] at hc
    cases first : (Text.trim p.toList).head? with
    | none =>
      rw [first] at hc
      obtain rfl : separator = c := Option.some.inj hc
      decide
    | some d =>
      rw [first] at hc
      obtain rfl : d = c := Option.some.inj hc
      exact Text.isBlank_of_head?_trim first
  · intro c hc
    rw [List.getLast?_append, List.getLast?_cons] at hc
    cases last : (Text.trim q.toList).getLast? with
    | none =>
      rw [last] at hc
      obtain rfl : separator = c := Option.some.inj hc
      decide
    | some d =>
      rw [last] at hc
      obtain rfl : d = c := Option.some.inj hc
      exact Text.isBlank_of_getLast?_trim last

/-- Appended paths have the segments of the one and then those of the other. -/
theorem split_append (closed : (Text.trim p.toList).getLast? ≠ some escape) (q : String) :
    split (Text.trim (append p q).toList) =
      split (Text.trim p.toList) ++ split (Text.trim q.toList) := by
  rw [trim_append]
  exact splitAfter_append (endsEscapedAfter_false_iff.2 closed) _

/-- Without indices appended paths have the tokens of the one and then those of the other. -/
theorem tokenize_append_nil (closed : (Text.trim p.toList).getLast? ≠ some escape) (q : String) :
    ∃ ts us, tokenize p [] = .ok ts ∧ tokenize q [] = .ok us ∧
      tokenize (append p q) [] = .ok (ts ++ us) := by
  refine ⟨_, _, tokenize_nil p, tokenize_nil q, ?_⟩
  rw [tokenize_nil, split_append closed, List.map_append]

/-- So they have with indices, when those in front are as many as the placeholders in front; only
the indices behind can be too few. -/
theorem tokenize_append (closed : (Text.trim p.toList).getLast? ≠ some escape) (q : String)
    {is js : List Nat} (some_is : is ≠ []) (some_js : js ≠ [])
    (used : placeholders p = is.length) :
    ∃ ts, tokenize p is = .ok ts ∧
      (∀ us, tokenize q js = .ok us → tokenize (append p q) (is ++ js) = .ok (ts ++ us)) ∧
      ∀ e, tokenize q js = .error e → ∃ e', tokenize (append p q) (is ++ js) = .error e' := by
  have some_both : is ++ js ≠ [] := by simp [some_is]
  obtain ⟨ts, filled⟩ := Option.isSome_iff_exists.1 (Token.isSome_fill?_iff.2 (Nat.le_of_eq used))
  have both : Token.ofSegments? (split (Text.trim (append p q).toList)) (is ++ js) =
      (Token.fill? (split (Text.trim q.toList)) js).map (ts ++ ·) := by
    rw [Token.ofSegments?_of_ne_nil some_both, split_append closed, Token.fill?_append used, filled]
    rfl
  refine ⟨ts, tokenize_of_ofSegments? ((Token.ofSegments?_of_ne_nil some_is _).trans filled), ?_⟩
  cases behind : Token.fill? (split (Text.trim q.toList)) js with
  | none =>
    rw [behind] at both
    have failed := tokenize_of_ofSegments?_none
      ((Token.ofSegments?_of_ne_nil some_js _).trans behind)
    rw [failed]
    exact ⟨nofun, fun _ _ => ⟨_, tokenize_of_ofSegments?_none both⟩⟩
  | some us =>
    rw [behind] at both
    have read := tokenize_of_ofSegments? ((Token.ofSegments?_of_ne_nil some_js _).trans behind)
    rw [read]
    refine ⟨?_, nofun⟩
    rintro _ ⟨⟩
    exact tokenize_of_ofSegments? both

theorem content?_of_ne_xml {format : Format} (h : format ≠ .xml) (t : Tree) :
    content? format t = none := by
  cases format with
  | xml => exact absurd rfl h
  | json | yaml | properties => rfl

/-- Outside of XML a walk goes on from where its first tokens lead. -/
theorem walk_append {format : Format} (h : format ≠ .xml) (root : Tree) (ts us : List Token) :
    walk format root (ts ++ us) = (walk format root ts).bind fun t => walk format t us := by
  induction ts generalizing root with
  | nil => rfl
  | cons token ts ih =>
    rw [List.cons_append, walk, walk]
    cases token.step with
    | position n => simp only [ih, Option.bind_assoc]
    | key name => simp only [content?_of_ne_xml h, ih, Option.bind_assoc]

end ConfigTree.Path
