import ConfigTree.Proofs.Path.Segment

/-!
# Scans by position

Cutting a path and unescaping a segment are scans that remember whether an escape stands right
before. Here it is said without that flag what they do. Cutting and joining are inverse to each
other between paths and the segments of `IsCut`, in which separators follow escapes and none but
the last ends in one (`split_join_inverse`). Unescaping drops the escapes at the positions of
`IsDropped`, which speaks of the text before anything is dropped: `unescapeAfter_cons_eq_ite` is
the step of one character, and `unescapeAfter_eq_withoutAt` the run, in which the flag stands for
the text in front.
-/

namespace ConfigTree.Path

/-- Every separator of a text follows an escape. -/
def IsGuarded (cs : List Char) : Prop :=
  ∀ front back, cs = front ++ separator :: back → front.getLast? = some escape

/-- Segments such as a path is cut into. -/
structure IsCut (segments : List (List Char)) : Prop where
  ne_nil : segments ≠ []
  guarded : ∀ cs ∈ segments, IsGuarded cs
  /-- A segment that another one follows does not end in an escape. -/
  inner : ∀ cs ∈ segments.dropLast, cs.getLast? ≠ some escape

/-- At a position stands an escape that unescaping drops: a separator comes right behind it, and no
escape right before. -/
def IsDropped (cs : List Char) (i : Nat) : Prop :=
  cs[i]? = some escape ∧ cs[i + 1]? = some separator ∧ (i = 0 ∨ cs[i - 1]? ≠ some escape)

instance (cs : List Char) (i : Nat) : Decidable (IsDropped cs i) :=
  inferInstanceAs (Decidable (_ ∧ _ ∧ _))

/-- A text without the characters at the positions that pass a test. -/
def withoutAt (p : Nat → Bool) (cs : List Char) : List Char :=
  (cs.zipIdx.filter fun c => !p c.2).map Prod.fst

/-- What unescaping makes of a text. -/
structure Unescaped (cs out : List Char) : Prop where
  /-- The escapes at the dropped positions are missing, and nothing else. -/
  kept : out = withoutAt (fun i => IsDropped cs i) cs
  in_order : out.Sublist cs
  separators : out.count separator = cs.count separator
  /-- Whatever is no escape is left as it is. -/
  others : out.filter (· != escape) = cs.filter (· != escape)

variable {escaped : Bool} {c : Char} {cs : List Char}

theorem endsEscapedAfter_true_iff :
    endsEscapedAfter false cs = true ↔ cs.getLast? = some escape := by
  rw [← Bool.not_eq_false, endsEscapedAfter_false_iff, Decidable.not_not]

/-- A text is solid when an escape ends what stands before each of its separators. -/
theorem isSolidAfter_iff :
    isSolidAfter escaped cs = true ↔
      ∀ front back, cs = front ++ separator :: back → endsEscapedAfter escaped front = true := by
  induction cs generalizing escaped with
  | nil => simp [isSolidAfter]
  | cons c cs ih =>
    rw [isSolidAfter, Bool.and_eq_true, ih]
    constructor
    · rintro ⟨here, later⟩ front back whole
      cases front with
      | nil =>
        obtain ⟨rfl, rfl⟩ := List.cons.inj whole
        show escaped = true
        simpa using here
      | cons d front =>
        obtain ⟨rfl, rfl⟩ := List.cons.inj whole
        exact later front back rfl
    · intro guarded
      constructor
      · by_cases here : c = separator
        · subst here
          have before : escaped = true := guarded [] cs rfl
          simp [before]
        · simp [here]
      · rintro front back rfl
        exact guarded (c :: front) back rfl

theorem isGuarded_iff : IsGuarded cs ↔ isSolidAfter false cs = true := by
  rw [isSolidAfter_iff]
  simp only [IsGuarded, endsEscapedAfter_true_iff]

theorem isCut_split (path : List Char) : IsCut (split path) := by
  constructor
  case ne_nil => exact splitAfter_ne_nil false path
  case guarded =>
    intro cs member
    exact isGuarded_iff.2 (isSolidAfter_of_mem_split member)
  case inner =>
    intro cs member
    exact getLast?_of_mem_dropLast_split member

theorem IsCut.split_join {segments : List (List Char)} (h : IsCut segments) :
    split (join segments) = segments := by
  apply Path.split_join h.ne_nil
  · intro cs member
    exact isGuarded_iff.1 (h.guarded cs member)
  · exact h.inner

/-- Cutting and joining are inverse to each other, between all paths and all segments such as a
path is cut into. -/
theorem split_join_inverse :
    (∀ path, IsCut (split path) ∧ join (split path) = path) ∧
      ∀ segments, IsCut segments → split (join segments) = segments := by
  constructor
  · intro path
    exact ⟨isCut_split path, join_split path⟩
  · intro segments cut
    exact cut.split_join

/-- A separator at the beginning, one that an escape keeps, two that cut, an escape at the end. -/
example : split ['.', 'a', '\\', '\\', '.', '.', '.', '\\'] =
    [[], ['a', '\\', '\\', '.'], [], ['\\']] := by
  decide

/-- The scan may take one character at a time: behind an escape that it dropped, the separator is
kept like any other character. -/
theorem unescapeAfter_cons_eq_ite (escaped : Bool) (c : Char) (cs : List Char) :
    unescapeAfter escaped (c :: cs) =
      if c = escape ∧ escaped = false ∧ cs.head? = some separator then
        unescapeAfter (c == escape) cs
      else c :: unescapeAfter (c == escape) cs := by
  split
  · next drops =>
    obtain ⟨rfl, rfl, next⟩ := drops
    obtain ⟨cs, rfl⟩ := List.head?_eq_some_iff.1 next
    rw [unescapeAfter_escape, unescapeAfter_cons (by simp)]
    rfl
  · next keeps => exact unescapeAfter_cons keeps

theorem withoutAt_cons (p : Nat → Bool) (c : Char) (cs : List Char) :
    withoutAt p (c :: cs) =
      if p 0 then withoutAt (fun i => p (i + 1)) cs else c :: withoutAt (fun i => p (i + 1)) cs := by
  have later : ((cs.zipIdx.map (Prod.map id (· + 1))).filter fun c => !p c.2).map Prod.fst =
      withoutAt (fun i => p (i + 1)) cs := by
    rw [List.filter_map, List.map_map]
    rfl
  rw [withoutAt, List.zipIdx_cons', List.filter_cons]
  cases p 0 <;> simp [later]

theorem withoutAt_sublist (p : Nat → Bool) (cs : List Char) : (withoutAt p cs).Sublist cs := by
  have kept : (withoutAt p cs).Sublist (cs.zipIdx.map Prod.fst) := List.filter_sublist.map Prod.fst
  rwa [List.zipIdx_map_fst] at kept

/-- Whether a character is dropped can be told from the end of the text in front of it and from
the character behind it. -/
theorem isDropped_length_iff (front : List Char) :
    IsDropped (front ++ c :: cs) front.length ↔
      c = escape ∧ endsEscapedAfter false front = false ∧ cs.head? = some separator := by
  have here : (front ++ c :: cs)[front.length]? = some c := by simp
  have next : (front ++ c :: cs)[front.length + 1]? = cs.head? := by
    rw [List.getElem?_append_right (by omega), List.head?_eq_getElem?]
    simp
  have before : (front.length = 0 ∨ (front ++ c :: cs)[front.length - 1]? ≠ some escape) ↔
      front.getLast? ≠ some escape := by
    rcases List.eq_nil_or_concat front with rfl | ⟨front, d, rfl⟩
    · simp
    · simp
  rw [IsDropped, here, next, before, endsEscapedAfter_false_iff, Option.some_inj,
    and_comm (a := cs.head? = some separator)]

/-- What is unescaped behind some text loses the escapes that are dropped from the whole. -/
theorem unescapeAfter_eq_withoutAt (front cs : List Char) :
    unescapeAfter (endsEscapedAfter false front) cs =
      withoutAt (fun i => IsDropped (front ++ cs) (front.length + i)) cs := by
  induction cs generalizing front with
  | nil => rfl
  | cons c cs ih =>
    -- one character further on, the flag and the positions are those of a longer text in front
    have flag : endsEscapedAfter false (front ++ [c]) = (c == escape) := by
      simp [endsEscapedAfter_eq]
    have later := ih (front ++ [c])
    simp only [flag, List.append_assoc, List.singleton_append, List.length_append,
      List.length_singleton, Nat.add_assoc, Nat.add_comm 1] at later
    rw [unescapeAfter_cons_eq_ite, withoutAt_cons, later]
    simp only [Nat.add_zero, isDropped_length_iff, decide_eq_true_eq]

theorem filter_unescapeAfter (escaped : Bool) (cs : List Char) :
    (unescapeAfter escaped cs).filter (· != escape) = cs.filter (· != escape) := by
  induction cs generalizing escaped with
  | nil => rfl
  | cons c cs ih =>
    rw [unescapeAfter_cons_eq_ite]
    split
    · next drops =>
      rw [ih, drops.1]
      rfl
    · rw [List.filter_cons, List.filter_cons, ih]

/-- Unescaping drops the escapes before separators that follow no other escape, all told by their
positions in the text as it was. -/
theorem unescaped_unescape (cs : List Char) : Unescaped cs (unescape cs) := by
  have kept : unescape cs = withoutAt (fun i => IsDropped cs i) cs := by
    have whole := unescapeAfter_eq_withoutAt [] cs
    simp only [List.nil_append, List.length_nil, Nat.zero_add] at whole
    exact whole
  have others : (unescape cs).filter (· != escape) = cs.filter (· != escape) :=
    filter_unescapeAfter false cs
  constructor
  case kept => exact kept
  case in_order =>
    rw [kept]
    exact withoutAt_sublist _ cs
  case separators =>
    have plain (ds : List Char) : (ds.filter (· != escape)).count separator = ds.count separator :=
      List.count_filter (p := (· != escape)) (by decide)
    rw [← plain (unescape cs), others, plain cs]
  case others => exact others

/-- Three escapes, of which only the one behind a separator is dropped. -/
example : unescape ['\\', '\\', '.', '\\', '.'] = ['\\', '\\', '.', '.'] := by
  decide

end ConfigTree.Path
