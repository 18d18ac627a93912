import ConfigTree.Proofs.Config.Sources
import ConfigTree.Proofs.Path.Append
import ConfigTree.Proofs.Path.Indices

/-!
# Lookups

What is known about paths, said of the queries that use them. Indices may be supplied or written
into the path, the answers are the same (`ask_written`). A path may be followed at once or in two
parts, the second one in a configuration made of the node that the first one leads to
(`append_composes`).
-/

namespace ConfigTree

open ConfigTree.Path (Token placeholders tokenize walk written)

variable {β : Type} {fs : FileSystem} {c : Config}

namespace Config

/-- The answer of a query with a valid path is about the tree that is loaded. -/
theorem answer_of_load {t : Tree} {q : Query β} {tokens : List Token}
    (loaded : (c.load fs).1 = .ok t) (valid : q.tokens = .ok tokens) :
    (c.ask fs q).1 = .ok (q.answer c.format t (walk c.format t tokens)) := by
  rw [ask_reply, loaded, Query.reply, valid]
  rfl

/-- Queries with valid paths that have the same answer about every document are the same to every
configuration. -/
theorem ask_eq_of_answer {q q' : Query β} {tokens tokens' : List Token}
    (valid : q.tokens = .ok tokens) (valid' : q'.tokens = .ok tokens')
    (same : ∀ format root, q.answer format root (walk format root tokens) =
      q'.answer format root (walk format root tokens')) :
    c.ask fs q = c.ask fs q' := by
  rw [ask, ask, valid, valid']
  cases c.load fs with
  | mk result c =>
    cases result with
    | error e => rfl
    | ok root => simp only [same]

end Config

namespace Query

/-- The path and the indices of a query that is about a path. -/
def address? : Query β → Option (String × List Nat)
  | @getOr _ _ path _ indices => some (path, indices)
  | @get _ _ path indices => some (path, indices)
  | .value path indices => some (path, indices)
  | .has path => some (path, [])
  | .keys path => some (path, [])
  | .find path indices => some (path, indices)
  | .rootKeys => none
  | .tree => none

/-- The same question about another path. A query that takes no indices still takes none, and one
about the whole document stays as it is. -/
def movedTo (path : String) (indices : List Nat) : Query β → Query β
  | @getOr _ _ _ default _ => .getOr path default indices
  | @get α _ _ _ => .get α path indices
  | .value _ _ => .value path indices
  | .has _ => .has path
  | .keys _ => .keys path
  | .find _ _ => .find path indices
  | .rootKeys => .rootKeys
  | .tree => .tree

variable {q : Query β} {path : String} {indices : List Nat}

theorem tokens_of_address? (h : q.address? = some (path, indices)) :
    q.tokens = tokenize path indices := by
  cases q with
  | getOr | get | value | find | has | keys => cases h; rfl
  | rootKeys | tree => cases h

/-- A query is moved to indices as long as it has any or they are none. -/
theorem address?_movedTo (h : q.address? = some (path, indices)) (path' : String)
    {indices' : List Nat} (without : indices = [] → indices' = []) :
    (q.movedTo path' indices').address? = some (path', indices') := by
  cases q with
  | getOr | get | value | find => rfl
  | has | keys => cases h; rw [without rfl]; rfl
  | rootKeys | tree => cases h

/-- What a query about a path answers depends on the node that is found there only. -/
theorem answer_movedTo {address : String × List Nat} (h : q.address? = some address)
    (path : String) (indices : List Nat) (format : Format) (root root' : Tree)
    (found : Option Tree) :
    (q.movedTo path indices).answer format root found = q.answer format root' found := by
  cases q with
  | getOr | get | value | find | has | keys => rfl
  | rootKeys | tree => cases h

end Query

/-- Where indices suffice for the placeholders of a path, they lead where their digits in the path
lead: in every tree, and for every query of every configuration. -/
theorem ask_written {path : String} {indices : List Nat}
    (enough : placeholders path ≤ indices.length) :
    ∃ tokens tokens', tokenize path indices = .ok tokens ∧
      tokenize (written path indices) [] = .ok tokens' ∧
      (∀ (format : Format) (root : Tree), walk format root tokens = walk format root tokens') ∧
      ∀ {β : Type} (q : Query β), q.address? = some (path, indices) →
        ∀ (fs : FileSystem) (c : Config),
          c.ask fs q = c.ask fs (q.movedTo (written path indices) []) := by
  obtain ⟨tokens, tokens', read, read', steps⟩ := Path.steps_tokenize enough
  have walks := Path.walk_eq_of_steps steps
  refine ⟨tokens, tokens', read, read', walks, ?_⟩
  intro β q address fs c
  have valid := (Query.tokens_of_address? address).trans read
  have address' := Query.address?_movedTo address (written path indices) fun _ => rfl
  have valid' := (Query.tokens_of_address? address').trans read'
  apply Config.ask_eq_of_answer valid valid'
  intro format root
  rw [walks, Query.answer_movedTo address]

/-- Blanks around a path, an escaped placeholder between two others, and a list on either side. -/
theorem ask_written_escaped :
    written " a.#.\\#.#" [1, 0] = "a.1.\\#.0" ∧
      ((Config.ofTree .json (.map [("a", .list [.null, .map [("#", .list [.text "end"])]])])).ask
        bareWorld (.value " a.#.\\#.#" [1, 0])).1 = .ok (some (.text "end")) := by
  have same : written " a.#.\\#.#" [1, 0] = "a.1.\\#.0" := by rfl
  have enough : placeholders " a.#.\\#.#" ≤ [1, 0].length := by decide
  obtain ⟨-, -, -, -, -, asked⟩ := ask_written enough
  refine ⟨same, ?_⟩
  rw [asked (.value " a.#.\\#.#" [1, 0]) rfl, same]
  rfl

/-- Indices for a path and for what lies below it: none at all, or for the first path as many as it
has placeholders, and some for the second. -/
def ShareIndices (p : String) (is js : List Nat) : Prop :=
  is = [] ∧ js = [] ∨ is ≠ [] ∧ js ≠ [] ∧ placeholders p = is.length

/-- How the path `q` below the path `p` stands to the two. -/
structure Composes (p q : String) : Prop where
  /-- Without indices its tokens are those of `p` and then those of `q`. -/
  plain : ∃ ts us, tokenize p [] = .ok ts ∧ tokenize q [] = .ok us ∧
    tokenize (Path.append p q) [] = .ok (ts ++ us)
  /-- So they are with indices, if there are enough for `q`. -/
  filled : ∀ is js : List Nat, is ≠ [] → js ≠ [] → placeholders p = is.length →
    ∃ ts, tokenize p is = .ok ts ∧
      (∀ us, tokenize q js = .ok us → tokenize (Path.append p q) (is ++ js) = .ok (ts ++ us)) ∧
      ((∃ e, tokenize (Path.append p q) (is ++ js) = .error e) ↔ ∃ e, tokenize q js = .error e)
  /-- A walk goes on from where its first tokens lead. -/
  walk : ∀ format : Format, format ≠ .xml → ∀ (root v : Tree) (ts us : List Token),
    walk format root (ts ++ us) = some v ↔
      ∃ m, walk format root ts = some m ∧ walk format m us = some v
  /-- What is asked below `p` is asked in a configuration made of the node at `p`; where there is
  no node at `p`, nothing is found. -/
  lookup : ∀ {β : Type} (query : Query β) (is js : List Nat) (us : List Token),
    query.address? = some (q, js) → ShareIndices p is js → tokenize q js = .ok us →
    ∀ (fs : FileSystem) (c : Config) (t : Tree), (c.load fs).1 = .ok t → c.format ≠ .xml →
    ∃ ts, tokenize p is = .ok ts ∧
      (c.ask fs (query.movedTo (Path.append p q) (is ++ js))).1 =
        match Path.walk c.format t ts with
        | some m => ((Config.ofTree c.format m).ask fs query).1
        | none => .ok (query.answer c.format t none)

theorem exists_tokenize_append {p q : String}
    (closed : (Text.trim p.toList).getLast? ≠ some Path.escape) {is js : List Nat}
    (share : ShareIndices p is js) {us : List Token} (read : tokenize q js = .ok us) :
    ∃ ts, tokenize p is = .ok ts ∧ tokenize (Path.append p q) (is ++ js) = .ok (ts ++ us) := by
  rcases share with ⟨rfl, rfl⟩ | ⟨some_is, some_js, used⟩
  · obtain ⟨ts, us', first, second, both⟩ := Path.tokenize_append_nil closed q
    rw [second] at read
    obtain rfl := Except.ok.inj read
    exact ⟨ts, first, both⟩
  · obtain ⟨ts, first, both, -⟩ := Path.tokenize_append closed q some_is some_js used
    exact ⟨ts, first, both us read⟩

/-- A path that does not end in an escape composes with every path. -/
theorem append_composes {p : String}
    (closed : (Text.trim p.toList).getLast? ≠ some Path.escape) (q : String) : Composes p q := by
  constructor
  case plain => exact Path.tokenize_append_nil closed q
  case filled =>
    intro is js some_is some_js used
    obtain ⟨ts, first, read, failed⟩ := Path.tokenize_append closed q some_is some_js used
    refine ⟨ts, first, read, ?_, ?_⟩
    · rintro ⟨e, he⟩
      cases hq : tokenize q js with
      | error e => exact ⟨e, rfl⟩
      | ok us =>
        rw [read us hq] at he
        cases he
    · rintro ⟨e, he⟩
      exact failed e he
  case walk =>
    intro format plain root v ts us
    rw [Path.walk_append plain]
    exact Option.bind_eq_some_iff
  case lookup =>
    intro β query is js us address share read fs c t loaded plain
    obtain ⟨ts, first, both⟩ := exists_tokenize_append closed share read
    refine ⟨ts, first, ?_⟩
    -- a query without indices can be moved only where none are shared
    have without : js = [] → is ++ js = [] := by
      rintro rfl
      rcases share with ⟨rfl, -⟩ | ⟨-, some_js, -⟩
      · rfl
      · exact absurd rfl some_js
    have address' := Query.address?_movedTo address (Path.append p q) without
    have valid := (Query.tokens_of_address? address').trans both
    rw [Config.answer_of_load loaded valid, Path.walk_append plain]
    cases found : Path.walk c.format t ts with
    | none => exact congrArg Except.ok (Query.answer_movedTo address _ _ c.format t t _)
    | some m =>
      have made : ((Config.ofTree c.format m).load fs).1 = .ok m := rfl
      have asked := Config.answer_of_load made ((Query.tokens_of_address? address).trans read)
      exact (congrArg Except.ok (Query.answer_movedTo address _ _ c.format t m _)).trans asked.symm

/-- Two paths with placeholders, blanks around them, and escapes on both sides of the joint. -/
theorem append_composes_escaped :
    Path.append " a\\..# " "\\#.x\\.y.#" = "a\\..#.\\#.x\\.y.#" ∧
      ((Config.ofTree .yaml (.map [("a.", .list [.null, .map [("#", .map
        [("x.y", .list [.text "end"])])]])])).ask
        bareWorld (.find "a\\..#.\\#.x\\.y.#" [1, 0])).1 = .ok (some (.text "end")) := by
  have name : Path.append " a\\..# " "\\#.x\\.y.#" = "a\\..#.\\#.x\\.y.#" := by rfl
  have closed : (Text.trim " a\\..# ".toList).getLast? ≠ some Path.escape := by decide
  have share : ShareIndices " a\\..# " [1] [0] := .inr (by decide)
  have composes := append_composes closed "\\#.x\\.y.#"
  obtain ⟨ts, first, asked⟩ := composes.lookup (.find "\\#.x\\.y.#" [0]) [1] [0] _ rfl share rfl
    bareWorld (.ofTree .yaml (.map [("a.", .list [.null, .map [("#", .map
      [("x.y", .list [.text "end"])])]])])) _ rfl nofun
  refine ⟨name, ?_⟩
  rw [Query.movedTo, name] at asked
  refine asked.trans ?_
  obtain rfl := Except.ok.inj first
  rfl

end ConfigTree
