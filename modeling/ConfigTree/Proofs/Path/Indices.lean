import ConfigTree.Proofs.Path.Address

/-!
# Indices written into a path

An index that is supplied for a placeholder leads where its digits would lead in the place of the
placeholder. The tokens are others: an index where there are digits now, and `#` where an escaped
placeholder keeps its escape. But token by token the steps are the same (`steps_fill?`), and a walk
depends on nothing else (`walk_eq_of_steps`).
-/

namespace ConfigTree.Path

/-- Segments with the digits of indices in the place of placeholders, from left to right. -/
def writeIndices : List (List Char) → List Nat → List (List Char)
  | [], _ => []
  | cs :: segments, [] => cs :: segments
  | cs :: segments, i :: indices =>
    if cs = placeholder then Decimal.digits i :: writeIndices segments indices
    else cs :: writeIndices segments (i :: indices)

/-- The path with the digits of indices in the place of its placeholders. -/
def written (path : String) (indices : List Nat) : String :=
  .ofList (join (writeIndices (split (Text.trim path.toList)) indices))

/-- The digits of an index lead to its position. -/
theorem step_ofSegment_digits (i : Nat) :
    (Token.ofSegment (Decimal.digits i)).step = .position i := by
  have kept : unescape (Decimal.digits i) = Decimal.digits i :=
    DigitWord.unescapeAfter_digits (fun _ => Decimal.isDigit_of_mem_digits) false
  simp only [Token.ofSegment, Token.step, kept, String.toList_ofList, Decimal.natural?_digits]

theorem writeIndices_nil (segments : List (List Char)) : writeIndices segments [] = segments := by
  cases segments <;> rfl

theorem writeIndices_placeholder (segments : List (List Char)) (i : Nat) (indices : List Nat) :
    writeIndices (placeholder :: segments) (i :: indices) =
      Decimal.digits i :: writeIndices segments indices :=
  if_pos rfl

theorem writeIndices_cons_of_ne {cs : List Char} (h : cs ≠ placeholder)
    (segments : List (List Char)) (indices : List Nat) :
    writeIndices (cs :: segments) indices = cs :: writeIndices segments indices := by
  cases indices with
  | nil => rw [writeIndices_nil, writeIndices_nil]
  | cons i indices => exact if_neg h

/-- A segment stays or becomes the digits of an index; the segments behind it take what indices it
leaves. -/
theorem writeIndices_cons (cs : List Char) (indices : List Nat) :
    ∃ x more, (x = cs ∨ ∃ i, x = Decimal.digits i) ∧
      ∀ segments, writeIndices (cs :: segments) indices = x :: writeIndices segments more := by
  by_cases h : cs = placeholder
  · subst h
    cases indices with
    | nil =>
      refine ⟨placeholder, [], .inl rfl, ?_⟩
      intro segments
      rw [writeIndices_nil, writeIndices_nil]
    | cons i indices =>
      refine ⟨Decimal.digits i, indices, .inr ⟨i, rfl⟩, ?_⟩
      intro segments
      exact writeIndices_placeholder segments i indices
  · refine ⟨cs, indices, .inl rfl, ?_⟩
    intro segments
    exact writeIndices_cons_of_ne h segments indices

theorem mem_writeIndices {segments : List (List Char)} {indices : List Nat} {x : List Char}
    (h : x ∈ writeIndices segments indices) : x ∈ segments ∨ ∃ i, x = Decimal.digits i := by
  induction segments generalizing indices with
  | nil => cases h
  | cons cs segments ih =>
    obtain ⟨y, more, kind, whole⟩ := writeIndices_cons cs indices
    rw [whole] at h
    rcases List.mem_cons.1 h with rfl | later
    · rcases kind with rfl | digits
      · exact .inl List.mem_cons_self
      · exact .inr digits
    · rcases ih later with member | digits
      · exact .inl (List.mem_cons_of_mem _ member)
      · exact .inr digits

theorem writeIndices_concat (segments : List (List Char)) (cs : List Char) (indices : List Nat) :
    ∃ x, (x = cs ∨ ∃ i, x = Decimal.digits i) ∧
      writeIndices (segments ++ [cs]) indices = writeIndices segments indices ++ [x] := by
  induction segments generalizing indices with
  | nil =>
    obtain ⟨x, more, kind, whole⟩ := writeIndices_cons cs indices
    exact ⟨x, kind, whole []⟩
  | cons ds segments ih =>
    obtain ⟨y, more, -, whole⟩ := writeIndices_cons ds indices
    obtain ⟨x, kind, last⟩ := ih more
    refine ⟨x, kind, ?_⟩
    rw [List.cons_append, whole, whole, last]
    rfl

theorem isBlank_of_mem_digits {i : Nat} {c : Char} (h : c ∈ Decimal.digits i) :
    Text.isBlank c = false :=
  Text.isBlank_of_isDigit (Decimal.isDigit_of_mem_digits h)

theorem exists_split_concat (cs : List Char) : ∃ init last, split cs = init ++ [last] :=
  ⟨_, _, (List.dropLast_concat_getLast (splitAfter_ne_nil false cs)).symm⟩

/-- A path into which indices are written has no blanks around it. -/
theorem trim_written (path : String) (indices : List Nat) :
    Text.trim (written path indices).toList = (written path indices).toList := by
  have whole := join_split (Text.trim path.toList)
  rw [written, String.toList_ofList]
  apply trim_join
  -- an outer segment that was not replaced is at the edge of the trimmed path
  · intro x hx c hc
    obtain ⟨cs, rest, hs⟩ :=
      List.exists_cons_of_ne_nil (splitAfter_ne_nil false (Text.trim path.toList))
    obtain ⟨y, more, kind, begins⟩ := writeIndices_cons cs indices
    rw [← split] at hs
    rw [hs] at hx whole
    rw [begins] at hx
    obtain rfl : y = x := Option.some.inj hx
    rcases kind with rfl | ⟨i, rfl⟩
    · have first := head?_join_cons hc rest
      rw [whole] at first
      exact Text.isBlank_of_head?_trim first
    · exact isBlank_of_mem_digits (List.mem_of_head? hc)
  · intro x hx c hc
    obtain ⟨init, cs, hs⟩ := exists_split_concat (Text.trim path.toList)
    obtain ⟨y, kind, ends⟩ := writeIndices_concat init cs indices
    rw [hs] at hx whole
    rw [ends, List.getLast?_concat] at hx
    obtain rfl : y = x := Option.some.inj hx
    rcases kind with rfl | ⟨i, rfl⟩
    · have last := getLast?_join_concat hc init
      rw [whole] at last
      exact Text.isBlank_of_getLast?_trim last
    · exact isBlank_of_mem_digits (List.mem_of_getLast? hc)

/-- The digits that are written stay segments by themselves. -/
theorem split_written (path : String) (indices : List Nat) :
    split (Text.trim (written path indices).toList) =
      writeIndices (split (Text.trim path.toList)) indices := by
  rw [trim_written, written, String.toList_ofList]
  obtain ⟨init, cs, hs⟩ := exists_split_concat (Text.trim path.toList)
  obtain ⟨last, -, whole⟩ := writeIndices_concat init cs indices
  apply split_join
  · rw [hs, whole]
    simp
  · intro x hx
    rcases mem_writeIndices hx with member | ⟨i, rfl⟩
    · exact isSolidAfter_of_mem_split member
    · exact DigitWord.isSolidAfter_digits (fun _ => Decimal.isDigit_of_mem_digits) false
  -- only the last segment may end in an escape, and it stays the last one
  · intro x hx
    rw [hs, whole, List.dropLast_concat] at hx
    rcases mem_writeIndices hx with member | ⟨i, rfl⟩
    · have inner : x ∈ (split (Text.trim path.toList)).dropLast := by
        rw [hs, List.dropLast_concat]
        exact member
      exact getLast?_of_mem_dropLast_split inner
    · intro he
      have digit : escape.isDigit = true :=
        Decimal.isDigit_of_mem_digits (List.mem_of_getLast? he)
      exact absurd digit (by decide)

/-- Segments that are filled have the steps of the segments into which the indices are written. -/
theorem steps_fill? {segments : List (List Char)} {indices : List Nat}
    (h : segments.count placeholder ≤ indices.length) :
    ∃ tokens, Token.fill? segments indices = some tokens ∧
      tokens.map Token.step =
        ((writeIndices segments indices).map Token.ofSegment).map Token.step := by
  induction segments generalizing indices with
  | nil => exact ⟨[], rfl, rfl⟩
  | cons cs segments ih =>
    by_cases hc : cs = placeholder
    · subst hc
      rw [List.count_cons_self] at h
      cases indices with
      | nil => simp at h
      | cons i indices =>
        obtain ⟨tokens, filled, steps⟩ := ih (Nat.le_of_succ_le_succ h)
        refine ⟨_, by rw [Token.fill?_placeholder, filled]; rfl, ?_⟩
        rw [writeIndices_placeholder, List.map_cons, List.map_cons, List.map_cons, steps,
          step_ofSegment_digits]
        rfl
    · rw [List.count_cons_of_ne hc] at h
      obtain ⟨tokens, filled, steps⟩ := ih h
      refine ⟨_, by rw [Token.fill?_cons_of_ne hc, filled]; rfl, ?_⟩
      rw [writeIndices_cons_of_ne hc, List.map_cons, List.map_cons, List.map_cons, steps]
      split
      · next he =>
        rw [he]
        rfl
      · rfl

/-- With enough indices a path is read, and so is the path into which they are written, step by
step the same. -/
theorem steps_tokenize {path : String} {indices : List Nat}
    (enough : placeholders path ≤ indices.length) :
    ∃ tokens tokens', tokenize path indices = .ok tokens ∧
      tokenize (written path indices) [] = .ok tokens' ∧
      tokens.map Token.step = tokens'.map Token.step := by
  rw [tokenize_nil, split_written]
  by_cases empty : indices = []
  · rw [empty, writeIndices_nil]
    exact ⟨_, _, tokenize_nil path, rfl, rfl⟩
  · obtain ⟨tokens, filled, steps⟩ := steps_fill? enough
    exact ⟨tokens, _, tokenize_of_ofSegments? ((Token.ofSegments?_of_ne_nil empty _).trans filled),
      rfl, steps⟩

/-- A walk depends on the steps of its tokens only. -/
theorem walk_eq_of_steps {ts us : List Token} (steps : ts.map Token.step = us.map Token.step)
    (format : Format) (root : Tree) : walk format root ts = walk format root us := by
  induction ts generalizing us root with
  | nil =>
    rw [List.map_nil, eq_comm, List.map_eq_nil_iff] at steps
    rw [steps]
  | cons t ts ih =>
    cases us with
    | nil => cases steps
    | cons u us =>
      obtain ⟨here, rest⟩ := List.cons.inj steps
      rw [walk, walk, here]
      simp only [ih rest]

end ConfigTree.Path
