import ConfigTree.Proofs.Path.Append
import ConfigTree.Proofs.Tree.Shape

/-!
# Walks that end at content

In XML a step by key that lands on a map with content ends the walk at that content. `Fires` says
of the first `k` tokens, in terms of the plain walk alone, that they end in such a step. A walk in
XML goes where the plain walk goes as long as nothing fires (`walk_xml_append`), and ends at the
content of the first tokens that do, whatever follows them (`walk_xml_of_firesFirst`).
-/

namespace ConfigTree.Path

/-- The node that a token leads to. -/
def follow (token : Token) (root : Tree) : Option Tree :=
  match token.step with
  | .position n => item? n root
  | .key name => child? name root

/-- The content at which a walk in XML ends when a token has led to the node `t`. -/
def entered? (token : Token) (t : Tree) : Option Tree :=
  match token.step with
  | .position _ => none
  | .key _ => content? .xml t

/-- The first `k` tokens, at least one, end in a step by key, and the plain walk along them leads
to a map that holds `content`, which is not null. -/
structure Fires (root : Tree) (ts : List Token) (k : Nat) (content : Tree) : Prop where
  some_tokens : 1 ≤ k
  by_key : ∃ token name, ts[k - 1]? = some token ∧ token.step = .key name
  on_map : ∃ es, walk .json root (ts.take k) = some (.map es) ∧
    Entries.find? "content" es = some content
  not_null : content ≠ .null

/-- The first `k` tokens fire, and no fewer do. -/
structure FiresFirst (root : Tree) (ts : List Token) (k : Nat) (content : Tree) : Prop where
  fires : Fires root ts k content
  first : ∀ j, j < k → ∀ other, ¬Fires root ts j other

variable {root t content : Tree} {token : Token} {ts : List Token} {k : Nat}

theorem isNull_eq_false_iff : t.isNull = false ↔ t ≠ .null := by
  cases t with
  | scalar s => cases s <;> simp [Tree.isNull]
  | list | map => simp [Tree.isNull]

/-- The content of a map in XML is what stands under its content key, unless it is null. -/
theorem content?_xml_eq_some_iff :
    content? .xml t = some content ↔
      ∃ es, t = .map es ∧ Entries.find? "content" es = some content ∧ content ≠ .null := by
  have looks : content? .xml t = child? "content" t := rfl
  rw [looks]
  cases t with
  | scalar | list => simp [child?]
  | map es =>
    rw [child?, Option.filter_eq_some_iff, Bool.not_eq_true', isNull_eq_false_iff]
    constructor
    · rintro ⟨found, some_content⟩
      exact ⟨es, rfl, found, some_content⟩
    · rintro ⟨_, ⟨⟩, found, some_content⟩
      exact ⟨found, some_content⟩

theorem walk_cons_of_ne_xml {format : Format} (h : format ≠ .xml) (root : Tree) (token : Token)
    (ts : List Token) :
    walk format root (token :: ts) = (follow token root).bind fun t => walk format t ts := by
  rw [walk, follow]
  cases token.step with
  | position n => rfl
  | key name => simp only [content?_of_ne_xml h]

theorem walk_cons_xml (root : Tree) (token : Token) (ts : List Token) :
    walk .xml root (token :: ts) = (follow token root).bind fun t =>
      match entered? token t with
      | some content => some content
      | none => walk .xml t ts := by
  rw [walk, follow]
  unfold entered?
  cases token.step <;> rfl

theorem not_fires_zero : ¬Fires root ts 0 content := by
  intro h
  have positive := h.some_tokens
  omega

theorem not_fires_nil : ¬Fires root [] k content := by
  rintro ⟨-, ⟨token, name, found, -⟩, -, -⟩
  simp at found

/-- A single token fires when it is a step by key onto a map with content. -/
theorem fires_one_iff :
    Fires root (token :: ts) 1 content ↔
      ∃ t, follow token root = some t ∧ entered? token t = some content := by
  have walked : walk .json root ((token :: ts).take 1) = follow token root := by
    rw [List.take_succ_cons, List.take_zero, walk_cons_of_ne_xml (by decide)]
    exact Option.bind_fun_some _
  constructor
  · rintro ⟨-, ⟨_, name, ⟨⟩, by_key⟩, ⟨es, landed, found⟩, not_null⟩
    rw [walked] at landed
    refine ⟨_, landed, ?_⟩
    rw [entered?, by_key]
    exact content?_xml_eq_some_iff.2 ⟨es, rfl, found, not_null⟩
  · rintro ⟨t, followed, entered⟩
    unfold entered? at entered
    cases by_key : token.step with
    | position n => simp [by_key] at entered
    | key name =>
      simp only [by_key] at entered
      obtain ⟨es, rfl, found, not_null⟩ := content?_xml_eq_some_iff.1 entered
      constructor
      case some_tokens => omega
      case by_key => exact ⟨token, name, rfl, by_key⟩
      case on_map => exact ⟨es, walked.trans followed, found⟩
      case not_null => exact not_null

/-- More tokens fire when those behind the first one fire where it leads. -/
theorem fires_succ_iff (h : 1 ≤ k) :
    Fires root (token :: ts) (k + 1) content ↔
      ∃ t, follow token root = some t ∧ Fires t ts k content := by
  obtain ⟨k, rfl⟩ := Nat.exists_eq_add_of_le' h
  have walked : walk .json root ((token :: ts).take (k + 1 + 1)) =
      (follow token root).bind fun t => walk .json t (ts.take (k + 1)) := by
    rw [List.take_succ_cons, walk_cons_of_ne_xml (by decide)]
  constructor
  · rintro ⟨-, by_key, ⟨es, landed, found⟩, not_null⟩
    rw [walked] at landed
    obtain ⟨t, followed, landed⟩ := Option.bind_eq_some_iff.1 landed
    exact ⟨t, followed, h, by_key, ⟨es, landed, found⟩, not_null⟩
  · rintro ⟨t, followed, -, by_key, ⟨es, landed, found⟩, not_null⟩
    rw [followed] at walked
    exact ⟨by omega, by_key, ⟨es, walked.trans landed, found⟩, not_null⟩

/-- Where tokens fire, the first token leads to a node. -/
theorem exists_follow_of_fires (h : Fires root (token :: ts) k content) :
    ∃ t, follow token root = some t := by
  match k, h with
  | 0, h => exact absurd h not_fires_zero
  | 1, h =>
    obtain ⟨t, followed, -⟩ := fires_one_iff.1 h
    exact ⟨t, followed⟩
  | k + 2, h =>
    obtain ⟨t, followed, -⟩ := (fires_succ_iff (by omega)).1 h
    exact ⟨t, followed⟩

/-- If any tokens fire, there are first ones that do. -/
theorem exists_firesFirst (h : Fires root ts k content) :
    ∃ k content, FiresFirst root ts k content := by
  induction k using Nat.strongRecOn generalizing content with
  | ind k ih =>
    by_cases earlier : ∃ j, j < k ∧ ∃ other, Fires root ts j other
    · obtain ⟨j, less, other, fires⟩ := earlier
      exact ih j less fires
    · refine ⟨k, content, h, ?_⟩
      intro j less other fires
      exact earlier ⟨j, less, other, fires⟩

/-- A walk in XML ends where tokens fire for the first time. -/
theorem walk_xml_of_firesFirst (h : FiresFirst root ts k content) (later : List Token) :
    walk .xml root (ts.take k ++ later) = some content := by
  induction ts generalizing root k with
  | nil => exact absurd h.fires not_fires_nil
  | cons token ts ih =>
    obtain ⟨t, followed⟩ := exists_follow_of_fires h.fires
    match k, h with
    | 0, h => exact absurd h.fires not_fires_zero
    | 1, h =>
      obtain ⟨_, followed', entered⟩ := fires_one_iff.1 h.fires
      obtain rfl := Option.some.inj (followed.symm.trans followed')
      rw [List.take_succ_cons, List.cons_append, walk_cons_xml, followed, Option.bind_some, entered]
    | k + 2, h =>
      -- the first token does not fire alone, so that the walk goes on behind it
      have passed : entered? token t = none := by
        rw [Option.eq_none_iff_forall_ne_some]
        intro other entered
        exact h.first 1 (by omega) other (fires_one_iff.2 ⟨t, followed, entered⟩)
      have shifted : FiresFirst t ts (k + 1) content := by
        constructor
        case fires =>
          obtain ⟨_, followed', fires⟩ := (fires_succ_iff (by omega)).1 h.fires
          obtain rfl := Option.some.inj (followed.symm.trans followed')
          exact fires
        case first =>
          intro j less other fires
          have positive := fires.some_tokens
          exact h.first (j + 1) (by omega) other ((fires_succ_iff positive).2 ⟨t, followed, fires⟩)
      rw [List.take_succ_cons, List.cons_append, walk_cons_xml, followed, Option.bind_some, passed]
      exact ih shifted

/-- As long as nothing fires, a walk in XML goes where the plain walk goes, and on from there. -/
theorem walk_xml_append (h : ∀ k content, ¬Fires root ts k content) (later : List Token) :
    walk .xml root (ts ++ later) = (walk .json root ts).bind fun t => walk .xml t later := by
  induction ts generalizing root with
  | nil => rfl
  | cons token ts ih =>
    rw [List.cons_append, walk_cons_xml, walk_cons_of_ne_xml (by decide)]
    cases followed : follow token root with
    | none => rfl
    | some t =>
      have passed : entered? token t = none := by
        rw [Option.eq_none_iff_forall_ne_some]
        intro other entered
        exact h 1 other (fires_one_iff.2 ⟨t, followed, entered⟩)
      have behind : ∀ k content, ¬Fires t ts k content := by
        intro k content fires
        exact h (k + 1) content ((fires_succ_iff fires.some_tokens).2 ⟨t, followed, fires⟩)
      simp only [Option.bind_some, passed, ih behind]

theorem walk_xml_of_not_fires (h : ∀ k content, ¬Fires root ts k content) :
    walk .xml root ts = walk .json root ts := by
  have whole := walk_xml_append h []
  rw [List.append_nil] at whole
  rw [whole]
  exact Option.bind_fun_some _

/-- Where a walk in XML finds nothing, the plain walk does not either. -/
theorem walk_json_of_walk_xml_eq_none (h : walk .xml root ts = none) :
    walk .json root ts = none := by
  by_cases fired : ∃ k content, Fires root ts k content
  · obtain ⟨k, content, fires⟩ := fired
    obtain ⟨k, content, first⟩ := exists_firesFirst fires
    have ended := walk_xml_of_firesFirst first (ts.drop k)
    rw [List.take_append_drop, h] at ended
    cases ended
  · rw [← h, walk_xml_of_not_fires]
    intro k content fires
    exact fired ⟨k, content, fires⟩

theorem walk_eq_walk_json {format : Format} (h : format ≠ .xml) (root : Tree) (ts : List Token) :
    walk format root ts = walk .json root ts := by
  induction ts generalizing root with
  | nil => rfl
  | cons token ts ih =>
    rw [walk_cons_of_ne_xml h, walk_cons_of_ne_xml (by decide)]
    simp only [ih]

/-- What holds of each part of a node holds of the part that a token leads to, and of its parts. -/
theorem all_of_follow {p : Tree → Bool} (h : root.allBelow p = true)
    (followed : follow token root = some t) : p t = true ∧ t.allBelow p = true := by
  apply Tree.all_iff.1
  unfold follow at followed
  split at followed
  · cases root with
    | scalar | map => simp [item?] at followed
    | list items => exact Tree.all_of_mem_items h (List.mem_of_getElem? followed)
  · cases root with
    | scalar | list => simp [child?] at followed
    | map es =>
      obtain ⟨found, -⟩ := Option.filter_eq_some_iff.1 followed
      exact Tree.all_of_find? h found

theorem all_of_entered? {p : Tree → Bool} (h : t.allBelow p = true)
    (entered : entered? token t = some content) : content.all p = true := by
  unfold entered? at entered
  split at entered
  · cases entered
  · obtain ⟨es, rfl, found, -⟩ := content?_xml_eq_some_iff.1 entered
    exact Tree.all_of_find? h found

/-- What holds of each part of a node holds of each part of where a walk in XML leads. -/
theorem all_of_walk_xml {p : Tree → Bool} {root t : Tree} {token : Token} {ts : List Token}
    (h : root.allBelow p = true) (walked : walk .xml root (token :: ts) = some t) :
    t.all p = true := by
  rw [walk_cons_xml] at walked
  obtain ⟨u, followed, landed⟩ := Option.bind_eq_some_iff.1 walked
  have here : u.all p = true := Tree.all_iff.2 (all_of_follow h followed)
  have below : u.allBelow p = true := (Tree.all_iff.1 here).2
  cases entered : entered? token u with
  | some content =>
    simp only [entered] at landed
    obtain rfl := Option.some.inj landed
    exact all_of_entered? below entered
  | none =>
    simp only [entered] at landed
    cases ts with
    | nil =>
      obtain rfl := Option.some.inj landed
      exact here
    | cons token ts => exact all_of_walk_xml below landed

/-- Where no map below the root has content, a walk in XML is the plain walk. -/
theorem walk_xml_of_allBelow
    (h : root.allBelow (fun t => (content? .xml t).isNone) = true) (ts : List Token) :
    walk .xml root ts = walk .json root ts := by
  induction ts generalizing root with
  | nil => rfl
  | cons token ts ih =>
    rw [walk_cons_xml, walk_cons_of_ne_xml (by decide)]
    cases followed : follow token root with
    | none => rfl
    | some t =>
      obtain ⟨bare, below⟩ := all_of_follow h followed
      have passed : entered? token t = none := by
        unfold entered?
        cases token.step with
        | position n => rfl
        | key name => exact Option.isNone_iff_eq_none.1 bare
      simp only [Option.bind_some, passed, ih below]

/-- How a walk in XML stands to the plain walk along the same tokens. -/
structure Unwraps (root : Tree) (ts : List Token) : Prop where
  /-- If any tokens fire, there are first ones that do. -/
  first : (∃ k content, Fires root ts k content) → ∃ k content, FiresFirst root ts k content
  /-- The walk ends at the content of the first ones, whatever tokens follow them. -/
  fired : ∀ k content, FiresFirst root ts k content →
    walk .xml root ts = some content ∧
      ∀ later, walk .xml root (ts.take k ++ later) = some content
  unfired : (∀ k content, ¬Fires root ts k content) → walk .xml root ts = walk .json root ts
  not_found : walk .xml root ts = none → walk .json root ts = none
  /-- A step to a position goes on from the item itself, even where that item has content. -/
  position : (∀ k content, ¬Fires root ts k content) → ∀ token n, token.step = .position n →
    ∀ later, walk .xml root (ts ++ token :: later) =
      ((walk .json root ts).bind (item? n)).bind fun t => walk .xml t later
  /-- The root stands for itself: no tokens lead to it, and a first key is looked up in it. -/
  at_root : walk .xml root [] = some root ∧ ∀ token name, token.step = .key name →
    child? name root = none → walk .xml root (token :: ts) = none
  /-- Where no map below the root has content, all formats walk alike. -/
  bare : root.allBelow (fun t => (content? .xml t).isNone) = true →
    ∀ format format' : Format, walk format root ts = walk format' root ts

/-- A walk in XML ends at the content of the first tokens that fire, and is the plain walk if none
do. -/
theorem walk_unwraps (root : Tree) (ts : List Token) : Unwraps root ts := by
  constructor
  case first =>
    rintro ⟨k, content, fires⟩
    exact exists_firesFirst fires
  case fired =>
    intro k content h
    have ended := walk_xml_of_firesFirst h (ts.drop k)
    rw [List.take_append_drop] at ended
    exact ⟨ended, walk_xml_of_firesFirst h⟩
  case unfired => exact walk_xml_of_not_fires
  case not_found => exact walk_json_of_walk_xml_eq_none
  case position =>
    intro h token n by_position later
    have single (t : Tree) : walk .xml t (token :: later) =
        (item? n t).bind fun t => walk .xml t later := by
      rw [walk, by_position]
    simp only [walk_xml_append h, single, Option.bind_assoc]
  case at_root =>
    refine ⟨rfl, ?_⟩
    intro token name by_key missing
    rw [walk, by_key]
    simp only [missing, Option.bind_none]
  case bare =>
    intro h
    have plain (format : Format) : walk format root ts = walk .json root ts := by
      by_cases xml : format = .xml
      · rw [xml]
        exact walk_xml_of_allBelow h ts
      · exact walk_eq_walk_json xml root ts
    intro format format'
    rw [plain format, plain format']

/-- The walk ends at the content of `b`, not at that of the root or of the list item before it. -/
example : walk .xml (.map [("content", .text "root"), ("a", .list [.map [("content", .text "item"),
    ("b", .map [("content", .list [.text "end"]), ("c", .text "lost")])]])])
    [.segment "a", .index 0, .segment "b", .segment "c"] = some (.list [.text "end"]) := rfl

end ConfigTree.Path
