import ConfigTree.Proofs.Path.Content

/-!
# Trees that differ in one place

`DifferAt v v' steps t t'` says that the steps lead to `v` in `t` and to `v'` in `t'`, and that the
two trees are alike elsewhere. Walks in XML along these steps stay together: they reach the place in
both trees if no step before the last one ends the walk in the first (`walk_xml_of_differAt`),
because the contents that they might enter on the way are the same. What they find then is what the
last step lands on, or its content (`landing`).
-/

namespace ConfigTree.Path

/-- Trees that hold `v` and `v'` at the end of some steps, and else the same. -/
inductive DifferAt (v v' : Tree) : List Step → Tree → Tree → Prop where
  | here : DifferAt v v' [] v v'
  | key {name : String} {es es' : Entries Tree} {t t' : Tree} {steps : List Step}
      (found : Entries.find? name es = some t) (found' : Entries.find? name es' = some t')
      (others : ∀ k, k ≠ name → Entries.find? k es = Entries.find? k es')
      (below : DifferAt v v' steps t t') :
      DifferAt v v' (.key name :: steps) (.map es) (.map es')
  | position {n : Nat} {ts ts' : List Tree} {t t' : Tree} {steps : List Step}
      (found : ts[n]? = some t) (found' : ts'[n]? = some t')
      (others : ∀ m, m ≠ n → ts[m]? = ts'[m]?) (below : DifferAt v v' steps t t') :
      DifferAt v v' (.position n :: steps) (.list ts) (.list ts')

/-- What a walk in XML finds when its last step, by key, lands on a node. -/
def landing (t : Tree) : Option Tree :=
  if t.isNull then none else some ((content? .xml t).getD t)

variable {u u' v v' t t' : Tree} {steps steps' : List Step} {tokens : List Token}

theorem DifferAt.trans (outer : DifferAt u u' steps t t') (inner : DifferAt v v' steps' u u') :
    DifferAt v v' (steps ++ steps') t t' := by
  induction outer with
  | here => exact inner
  | key found found' others _ ih => exact .key found found' others ih
  | position found found' others _ ih => exact .position found found' others ih

/-- A place is not below a null. -/
theorem DifferAt.isNull_eq_false (h : DifferAt v v' steps t t') (below : steps ≠ []) :
    t.isNull = false ∧ t'.isNull = false := by
  cases h with
  | here => exact absurd rfl below
  | key | position => exact ⟨rfl, rfl⟩

/-- A step to a place further below is followed in both trees. -/
theorem DifferAt.exists_follow {token : Token} (h : DifferAt v v' (token.step :: steps) t t')
    (below : steps ≠ []) :
    ∃ u u', follow token t = some u ∧ follow token t' = some u' ∧ DifferAt v v' steps u u' := by
  generalize step : token.step = first at h
  cases h with
  | @key name es es' u u' _ found found' others differ =>
    obtain ⟨kept, kept'⟩ := differ.isNull_eq_false below
    refine ⟨u, u', ?_, ?_, differ⟩
    · rw [follow, step]
      simp only [child?, found, Option.filter_some, kept]
      rfl
    · rw [follow, step]
      simp only [child?, found', Option.filter_some, kept']
      rfl
  | @position n ts ts' u u' _ found found' others differ =>
    refine ⟨u, u', ?_, ?_, differ⟩
    · rw [follow, step]
      exact found
    · rw [follow, step]
      exact found'

/-- Content above the place is content of both trees, if the steps do not end in the content key. -/
theorem DifferAt.content?_eq_none {name : String}
    (h : DifferAt v v' (steps ++ [.key name]) t t') (not_content : name ≠ "content")
    (bare : content? .xml t = none) : content? .xml t' = none := by
  generalize whole : steps ++ [.key name] = all at h
  cases h with
  | here => simp at whole
  | position => rfl
  | @key k es es' t t' below found found' others differ =>
    have looks (es : Entries Tree) : content? .xml (.map es) =
        (Entries.find? "content" es).filter fun t => !t.isNull := rfl
    rw [looks] at bare ⊢
    by_cases here : k = "content"
    · -- then the place is further below, under a content that is not null
      subst here
      cases steps with
      | nil =>
        obtain ⟨⟨⟩, -⟩ := List.cons.inj whole
        exact absurd rfl not_content
      | cons step steps =>
        obtain ⟨-, rfl⟩ := List.cons.inj whole
        rw [found, Option.filter_some, (differ.isNull_eq_false (by simp)).1] at bare
        cases bare
    · rw [← others "content" (Ne.symm here)]
      exact bare

/-- A walk in XML whose first step leads on and does not enter content goes on from there. -/
theorem walk_cons_xml_of_follow {token : Token} (followed : follow token t = some u)
    (passed : entered? token u = none) (tokens : List Token) :
    walk .xml t (token :: tokens) = walk .xml u tokens := by
  rw [walk_cons_xml, followed, Option.bind_some, passed]

/-- A walk in XML whose only step is by key finds what it lands on. -/
theorem walk_xml_key {name : String} {es : Entries Tree} {token : Token}
    (step : token.step = .key name) (found : Entries.find? name es = some v) :
    walk .xml (.map es) [token] = landing v := by
  rw [walk_cons_xml, follow, step]
  simp only [child?, found, Option.filter_some, entered?, step, landing]
  cases v.isNull with
  | true => rfl
  | false =>
    rw [Bool.not_false, if_pos rfl, Option.bind_some]
    cases content? .xml v <;> rfl

/-- Where no step before the last ends the walk in the first tree, walks in XML along the steps to a
key lands on the two values. -/
theorem walk_xml_of_differAt {name : String} (h : DifferAt v v' (steps ++ [.key name]) t t')
    (not_content : name ≠ "content") (along : tokens.map Token.step = steps ++ [.key name])
    (unfired : ∀ k < tokens.length, ∀ content, ¬Fires t tokens k content) :
    walk .xml t tokens = landing v ∧ walk .xml t' tokens = landing v' := by
  induction steps generalizing t t' tokens with
  | nil =>
    obtain ⟨token, tokens, rfl, step, along⟩ := List.map_eq_cons_iff.1 along
    obtain rfl := List.map_eq_nil_iff.1 along
    cases h with
    | key found found' _ below =>
      cases below
      exact ⟨walk_xml_key step found, walk_xml_key step found'⟩
  | cons first steps ih =>
    obtain ⟨token, tokens, rfl, rfl, rest⟩ := List.map_eq_cons_iff.1 along
    -- the step is followed in both trees, and enters content in neither
    obtain ⟨u, u', followed, followed', below⟩ := h.exists_follow (by simp)
    have later : 1 < (token :: tokens).length := by
      have count := congrArg List.length rest
      simp only [List.length_map, List.append_eq, List.length_append, List.length_singleton]
        at count
      rw [List.length_cons]
      omega
    have passed : entered? token u = none := by
      rw [Option.eq_none_iff_forall_ne_some]
      intro content entered
      exact unfired 1 later content (fires_one_iff.2 ⟨u, followed, entered⟩)
    have passed' : entered? token u' = none := by
      unfold entered? at passed ⊢
      cases by_key : token.step with
      | position n => rfl
      | key k =>
        rw [by_key] at passed
        exact below.content?_eq_none not_content passed
    have onward : ∀ k < tokens.length, ∀ content, ¬Fires u tokens k content := by
      intro k less content fires
      have positive := fires.some_tokens
      exact unfired (k + 1) (Nat.succ_lt_succ less) content
        ((fires_succ_iff positive).2 ⟨u, followed, fires⟩)
    rw [walk_cons_xml_of_follow followed passed, walk_cons_xml_of_follow followed' passed']
    exact ih below rest onward

end ConfigTree.Path
