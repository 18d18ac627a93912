import ConfigTree.Path.Segment
import ConfigTree.Text

/-!
# Segments that are joined and cut

A text is solid when each of its separators follows an escape. A solid text is a single segment
(`splitAfter_solid`), and solid segments that do not end in an escape are found again after they
have been joined (`split_join`). The segments of a text are such segments, but for the last one,
which may end in an escape, and joining them gives the text back (`join_split`). On the other side,
`unescapeAfter_cons` says which character the unescaping drops: an escape before a separator,
unless another escape stands before it.
-/

namespace ConfigTree.Path

/-- Every separator of a text follows an escape; the flag says whether an escape stands right
before the text. -/
def isSolidAfter (escaped : Bool) : List Char → Bool
  | [] => true
  | c :: cs => (c != separator || escaped) && isSolidAfter (c == escape) cs

/-- Whether an escape stands right before the end of a text. -/
def endsEscapedAfter (escaped : Bool) : List Char → Bool
  | [] => escaped
  | c :: cs => endsEscapedAfter (c == escape) cs

theorem endsEscapedAfter_eq (escaped : Bool) (cs : List Char) :
    endsEscapedAfter escaped cs = (cs.getLast?.map (· == escape)).getD escaped := by
  induction cs generalizing escaped with
  | nil => rfl
  | cons c cs ih =>
    rw [endsEscapedAfter, ih]
    cases cs with
    | nil => rfl
    | cons d ds => rw [List.getLast?_cons_cons, List.getLast?_eq_some_getLast (by simp)]; rfl

/-- What an escape before a text keeps is kept as well without the text caring. -/
theorem isSolidAfter_true {escaped : Bool} {cs : List Char} (h : isSolidAfter escaped cs = true) :
    isSolidAfter true cs = true := by
  cases cs with
  | nil => rfl
  | cons c cs =>
    rw [isSolidAfter, Bool.and_eq_true] at h ⊢
    constructor
    · simp
    · exact h.2

/-- A solid text is not cut. -/
theorem splitAfter_solid {escaped : Bool} {cs : List Char} (h : isSolidAfter escaped cs = true) :
    splitAfter escaped cs = [cs] := by
  induction cs generalizing escaped with
  | nil => rfl
  | cons c cs ih =>
    rw [isSolidAfter, Bool.and_eq_true] at h
    have kept : ¬(c = separator ∧ escaped = false) := by
      rintro ⟨rfl, rfl⟩
      simp at h
    rw [splitAfter, if_neg kept, ih h.2]
    rfl

theorem splitAfter_ne_nil (escaped : Bool) (cs : List Char) : splitAfter escaped cs ≠ [] := by
  cases cs with
  | nil => exact List.cons_ne_nil _ _
  | cons c cs =>
    rw [splitAfter]
    split
    · exact List.cons_ne_nil _ _
    · cases splitAfter (c == escape) cs <;> exact List.cons_ne_nil _ _

theorem splitAfter_cons_of_kept {escaped : Bool} {c : Char} {cs first : List Char}
    {rest : List (List Char)} (kept : ¬(c = separator ∧ escaped = false))
    (h : splitAfter (c == escape) cs = first :: rest) :
    splitAfter escaped (c :: cs) = (c :: first) :: rest := by
  rw [splitAfter, if_neg kept, h]
  rfl

/-- A path is cut at a separator before which no escape stands, whatever is in front. -/
theorem splitAfter_append {escaped : Bool} {cs : List Char}
    (last : endsEscapedAfter escaped cs = false) (rest : List Char) :
    splitAfter escaped (cs ++ separator :: rest) =
      splitAfter escaped cs ++ splitAfter false rest := by
  induction cs generalizing escaped with
  | nil =>
    show splitAfter escaped (separator :: rest) = [] :: splitAfter false rest
    rw [splitAfter]
    exact if_pos ⟨rfl, last⟩
  | cons c cs ih =>
    by_cases cut : c = separator ∧ escaped = false
    · obtain ⟨rfl, rfl⟩ := cut
      have later : splitAfter false (cs ++ separator :: rest) = _ := ih last
      rw [List.cons_append, splitAfter, if_pos ⟨rfl, rfl⟩, later, splitAfter,
        if_pos ⟨rfl, rfl⟩]
      rfl
    · obtain ⟨first, segments, h⟩ := List.exists_cons_of_ne_nil (splitAfter_ne_nil (c == escape) cs)
      have later := ih last
      rw [h] at later
      rw [List.cons_append, splitAfter_cons_of_kept cut later, splitAfter_cons_of_kept cut h]
      rfl

theorem join_cons_cons (cs ds : List Char) (segments : List (List Char)) :
    join (cs :: ds :: segments) = cs ++ separator :: join (ds :: segments) := rfl

/-- Cutting loses nothing but the separators at the cuts. -/
theorem join_splitAfter (escaped : Bool) (cs : List Char) : join (splitAfter escaped cs) = cs := by
  induction cs generalizing escaped with
  | nil => rfl
  | cons c cs ih =>
    by_cases cut : c = separator ∧ escaped = false
    · obtain ⟨rfl, rfl⟩ := cut
      obtain ⟨first, rest, h⟩ := List.exists_cons_of_ne_nil (splitAfter_ne_nil false cs)
      have later := ih false
      rw [h] at later
      rw [splitAfter, if_pos ⟨rfl, rfl⟩, h, join_cons_cons, later]
      rfl
    · obtain ⟨first, rest, h⟩ := List.exists_cons_of_ne_nil (splitAfter_ne_nil (c == escape) cs)
      have later := ih (c == escape)
      rw [h] at later
      rw [splitAfter_cons_of_kept cut h, ← later]
      cases rest <;> rfl

theorem join_split (cs : List Char) : join (split cs) = cs :=
  join_splitAfter false cs

/-- What is cut off is solid; only the first segment can lean on an escape before the path. -/
theorem isSolidAfter_of_splitAfter {escaped : Bool} {cs first : List Char}
    {rest : List (List Char)} (h : splitAfter escaped cs = first :: rest) :
    isSolidAfter escaped first = true ∧ ∀ segment ∈ rest, isSolidAfter false segment = true := by
  induction cs generalizing escaped first rest with
  | nil =>
    obtain ⟨rfl, rfl⟩ := List.cons.inj h
    exact ⟨rfl, fun _ => nofun⟩
  | cons c cs ih =>
    by_cases cut : c = separator ∧ escaped = false
    · rw [splitAfter, if_pos cut] at h
      obtain ⟨rfl, rfl⟩ := List.cons.inj h
      obtain ⟨next, rest, h⟩ := List.exists_cons_of_ne_nil (splitAfter_ne_nil false cs)
      rw [h]
      exact ⟨rfl, List.forall_mem_cons.2 (ih h)⟩
    · obtain ⟨next, rest', h'⟩ := List.exists_cons_of_ne_nil (splitAfter_ne_nil (c == escape) cs)
      rw [splitAfter_cons_of_kept cut h'] at h
      obtain ⟨rfl, rfl⟩ := List.cons.inj h
      obtain ⟨solid, later⟩ := ih h'
      refine ⟨?_, later⟩
      rw [isSolidAfter, solid, Bool.and_true]
      cases escaped with
      | true => simp
      | false => simpa using cut

theorem isSolidAfter_of_mem_split {cs segment : List Char} (h : segment ∈ split cs) :
    isSolidAfter false segment = true := by
  obtain ⟨first, rest, hs⟩ := List.exists_cons_of_ne_nil (splitAfter_ne_nil false cs)
  obtain ⟨solid, later⟩ := isSolidAfter_of_splitAfter hs
  rw [split, hs] at h
  rcases List.mem_cons.1 h with rfl | h
  · exact solid
  · exact later segment h

/-- No cut is made behind an escape. -/
theorem endsEscapedAfter_of_splitAfter {escaped : Bool} {cs first : List Char}
    {rest : List (List Char)} (h : splitAfter escaped cs = first :: rest) :
    (rest ≠ [] → endsEscapedAfter escaped first = false) ∧
      ∀ segment ∈ rest.dropLast, endsEscapedAfter false segment = false := by
  induction cs generalizing escaped first rest with
  | nil =>
    obtain ⟨rfl, rfl⟩ := List.cons.inj h
    exact ⟨nofun, fun _ => nofun⟩
  | cons c cs ih =>
    by_cases cut : c = separator ∧ escaped = false
    · rw [splitAfter, if_pos cut] at h
      obtain ⟨rfl, rfl⟩ := List.cons.inj h
      obtain ⟨next, rest, h⟩ := List.exists_cons_of_ne_nil (splitAfter_ne_nil false cs)
      obtain ⟨here, later⟩ := ih h
      rw [h]
      refine ⟨fun _ => cut.2, ?_⟩
      cases rest with
      | nil => exact fun _ => nofun
      | cons segment rest =>
        rw [List.dropLast_cons_cons]
        exact List.forall_mem_cons.2 ⟨here (List.cons_ne_nil _ _), later⟩
    · obtain ⟨next, rest', h'⟩ := List.exists_cons_of_ne_nil (splitAfter_ne_nil (c == escape) cs)
      rw [splitAfter_cons_of_kept cut h'] at h
      obtain ⟨rfl, rfl⟩ := List.cons.inj h
      obtain ⟨here, later⟩ := ih h'
      exact ⟨here, later⟩

theorem endsEscapedAfter_false_iff {cs : List Char} :
    endsEscapedAfter false cs = false ↔ cs.getLast? ≠ some escape := by
  rw [endsEscapedAfter_eq]
  cases cs.getLast? <;> simp

theorem getLast?_of_mem_dropLast_split {cs segment : List Char}
    (h : segment ∈ (split cs).dropLast) : segment.getLast? ≠ some escape := by
  obtain ⟨first, rest, hs⟩ := List.exists_cons_of_ne_nil (splitAfter_ne_nil false cs)
  obtain ⟨here, later⟩ := endsEscapedAfter_of_splitAfter hs
  rw [split, hs] at h
  rw [← endsEscapedAfter_false_iff]
  cases rest with
  | nil => cases h
  | cons next rest =>
    rw [List.dropLast_cons_cons] at h
    rcases List.mem_cons.1 h with rfl | h
    · exact here (List.cons_ne_nil _ _)
    · exact later segment h

/-- A joined path ends as its last segment does, or in a separator before an empty one. -/
theorem getLast?_join {segments : List (List Char)} {c : Char}
    (h : (join segments).getLast? = some c) :
    c = separator ∨ ∃ cs, segments.getLast? = some cs ∧ cs.getLast? = some c := by
  induction segments with
  | nil => cases h
  | cons cs segments ih =>
    cases segments with
    | nil => exact .inr ⟨cs, rfl, h⟩
    | cons ds segments =>
      rw [join_cons_cons, List.getLast?_append, List.getLast?_cons] at h
      cases hl : (join (ds :: segments)).getLast? with
      | none =>
        rw [hl] at h
        exact .inl (Option.some.inj h).symm
      | some d =>
        rw [hl] at h
        obtain rfl : d = c := Option.some.inj h
        rw [List.getLast?_cons_cons]
        exact ih hl

/-- A joined path begins as its first segment does, or with a separator behind an empty one. -/
theorem head?_join {segments : List (List Char)} {c : Char}
    (h : (join segments).head? = some c) :
    c = separator ∨ ∃ cs, segments.head? = some cs ∧ cs.head? = some c := by
  cases segments with
  | nil => cases h
  | cons cs segments =>
    cases segments with
    | nil => exact .inr ⟨cs, rfl, h⟩
    | cons ds segments =>
      rw [join_cons_cons, List.head?_append] at h
      cases hs : cs.head? with
      | none =>
        rw [hs] at h
        exact .inl (Option.some.inj h).symm
      | some d =>
        rw [hs] at h
        obtain rfl : d = c := Option.some.inj h
        exact .inr ⟨cs, rfl, hs⟩

theorem head?_join_cons {cs : List Char} {c : Char} (h : cs.head? = some c)
    (segments : List (List Char)) : (join (cs :: segments)).head? = some c := by
  cases segments with
  | nil => exact h
  | cons ds segments => rw [join_cons_cons, List.head?_append, h]; rfl

theorem getLast?_join_concat {cs : List Char} {c : Char} (h : cs.getLast? = some c)
    (segments : List (List Char)) : (join (segments ++ [cs])).getLast? = some c := by
  induction segments with
  | nil => exact h
  | cons ds segments ih =>
    obtain ⟨next, rest, hs⟩ : ∃ next rest, segments ++ [cs] = next :: rest :=
      List.exists_cons_of_ne_nil (by simp)
    rw [hs] at ih
    rw [List.cons_append, hs, join_cons_cons, List.getLast?_append, List.getLast?_cons, ih]
    rfl

/-- A joined path is not changed by trimming if its first segment does not begin with a blank and
its last one does not end in one. -/
theorem trim_join {segments : List (List Char)}
    (first : ∀ cs, segments.head? = some cs → ∀ c, cs.head? = some c → Text.isBlank c = false)
    (last : ∀ cs, segments.getLast? = some cs → ∀ c, cs.getLast? = some c →
      Text.isBlank c = false) :
    Text.trim (join segments) = join segments := by
  apply Text.trim_eq_self
  · intro c hc
    obtain rfl | ⟨cs, hcs, hh⟩ := head?_join hc
    · decide
    · exact first cs hcs c hh
  · intro c hc
    obtain rfl | ⟨cs, hcs, hl⟩ := getLast?_join hc
    · decide
    · exact last cs hcs c hl

/-- Solid segments are found again after they have been joined, when none but the last one ends
in an escape. -/
theorem split_join {segments : List (List Char)} (ne : segments ≠ [])
    (solid : ∀ cs ∈ segments, isSolidAfter false cs = true)
    (inner : ∀ cs ∈ segments.dropLast, cs.getLast? ≠ some escape) :
    split (join segments) = segments := by
  induction segments with
  | nil => exact absurd rfl ne
  | cons cs segments ih =>
    cases segments with
    | nil => exact splitAfter_solid (solid cs (by simp))
    | cons ds segments =>
      have last : endsEscapedAfter false cs = false :=
        endsEscapedAfter_false_iff.2 (inner cs (by simp))
      have later : split (join (ds :: segments)) = ds :: segments := by
        apply ih (List.cons_ne_nil ds segments)
        · intro x hx
          exact solid x (List.mem_cons_of_mem _ hx)
        · intro x hx
          apply inner x
          rw [List.dropLast_cons_cons]
          exact List.mem_cons_of_mem _ hx
      rw [join_cons_cons, split, splitAfter_append last,
        splitAfter_solid (solid cs List.mem_cons_self)]
      exact congrArg (cs :: ·) later

/-- Unescaping keeps every character but an escape before a separator that follows no other
escape. -/
theorem unescapeAfter_cons {escaped : Bool} {c : Char} {cs : List Char}
    (h : ¬(c = escape ∧ escaped = false ∧ cs.head? = some separator)) :
    unescapeAfter escaped (c :: cs) = c :: unescapeAfter (c == escape) cs := by
  cases cs with
  | nil => rfl
  | cons d cs =>
    rw [unescapeAfter, if_neg]
    simpa using h

theorem unescapeAfter_escape (cs : List Char) :
    unescapeAfter false (escape :: separator :: cs) = separator :: unescapeAfter false cs := by
  rw [unescapeAfter, if_pos ⟨rfl, rfl, rfl⟩]

end ConfigTree.Path
