import ConfigTree.Proofs.Config.Session

/-!
# Accessors

The queries about one path go different ways to the same node, and agree on when it is there. What
`value` answers settles all other answers: `has` asks whether there is one, `keys` lists its
keys, `get` reads it and `getOr` puts the default in the place of what cannot be read. Only the
maps of XML are seen by some and hidden from others; `present?_eq` says from whom.
-/

namespace ConfigTree

variable {α β : Type} {format : Format} {found : Option Tree}

/-- A node is present for those who take maps unless it is null or an empty collection. -/
theorem isPresent_true_iff {t : Tree} :
    isPresent format true t = true ↔ t ≠ .null ∧ t ≠ .map [] ∧ t ≠ .list [] := by
  cases t with
  | scalar s => cases s <;> simp [isPresent, Tree.isNull, Tree.isEmptyCollection]
  | list ts => cases ts <;> simp [isPresent, Tree.isNull, Tree.isEmptyCollection]
  | map es => cases es <;> simp [isPresent, Tree.isNull, Tree.isEmptyCollection]

theorem present?_true_eq_some_iff {t : Tree} :
    present? format true found = some t ↔
      found = some t ∧ t ≠ .null ∧ t ≠ .map [] ∧ t ≠ .list [] := by
  rw [present?, Option.filter_eq_some_iff, isPresent_true_iff]

theorem isPresent_eq (wantsMap : Bool) (t : Tree) :
    isPresent format wantsMap t =
      (isPresent format true t && !(format.rules.hidesMaps && !wantsMap && t.isMap)) := by
  rw [isPresent, isPresent]
  cases format.rules.hidesMaps <;> cases wantsMap <;> cases t.isMap <;> simp

/-- Who does not take maps misses the maps of XML, and nothing else. -/
theorem present?_eq (wantsMap : Bool) :
    present? format wantsMap found =
      if format = .xml ∧ (present? format true found).any Tree.isMap = true ∧ wantsMap = false
      then none else present? format true found := by
  cases found with
  | none => rw [if_neg (by rintro ⟨-, h, -⟩; cases h)]; rfl
  | some t =>
    rw [present?, present?, Option.filter_some, Option.filter_some, isPresent_eq wantsMap]
    cases isPresent format true t with
    | false => simp
    | true =>
      cases wantsMap <;> cases format <;> cases ht : t.isMap <;> simp [Format.rules, ht]

/-- The keys of the node that was found are those of the node that is present: what is not there
for those who take maps has no keys. -/
theorem keys_found (format : Format) (found : Option Tree) :
    (found.map Tree.keys).getD [] =
      ((present? format true found).bind Tree.entries?).elim [] Entries.keys := by
  cases found with
  | none => rfl
  | some t =>
    rw [present?, Option.filter_some]
    cases t with
    | scalar | list => split <;> rfl
    | map es => cases es <;> cases format <;> rfl

/-- A resolved value is what was read of a present node, or else the default. -/
theorem resolve_eq [Readable α] (default : α) :
    resolve format found default =
      ((present? format (Readable.isMap default) found).bind Readable.read).getD default := by
  rw [resolve]
  cases present? format (Readable.isMap default) found <;> rfl

/-- With no default, a resolved value is what was read, if it was. -/
theorem resolve_none [Readable α] :
    resolve format found (none : Option α) = (present? format false found).bind Readable.read := by
  rw [resolve_eq]
  show ((present? format false found).bind fun t => (Readable.read t).map some).getD none = _
  cases present? format false found with
  | none => rfl
  | some t => cases hr : (Readable.read t : Option α) <;> simp [hr]

namespace Config

theorem answer_of_cached {fs : FileSystem} {c : Config} {t : Tree} {q : Query β}
    {tokens : List Path.Token} (loaded : c.cached = some t) (valid : q.tokens = .ok tokens) :
    (c.ask fs q).1 = .ok (q.answer c.format t (Path.walk c.format t tokens)) := by
  rw [ask_of_cached loaded, Query.run, valid]
  rfl

end Config

/-- How the answers about a path stand to the node `found` there and to the answer `u` of `value`,
in a configuration `c`. -/
structure AccessorsAgree (fs : FileSystem) (c : Config) (path : String) (found u : Option Tree) :
    Prop where
  value : (c.ask fs (.value path [])).1 = .ok u
  /-- A node is there unless it is null or an empty collection. -/
  present : ∀ t, u = some t ↔ found = some t ∧ t ≠ .null ∧ t ≠ .map [] ∧ t ≠ .list []
  has : (c.ask fs (.has path)).1 = .ok u.isSome
  keys : (c.ask fs (.keys path)).1 = .ok ((u.bind Tree.entries?).elim [] Entries.keys)
  /-- What is read is the node, but never a map of XML. -/
  get : ∀ (α : Type) [Readable α], (c.ask fs (.get α path [])).1 =
    .ok (if c.format = .xml ∧ u.any Tree.isMap = true then none else u.bind Readable.read)
  /-- The default takes the place of what cannot be read. -/
  getOr : ∀ {α : Type} [Readable α] (default : α) (got : Option α),
    (c.ask fs (.get α path [])).1 = .ok got →
    ¬(c.format = .xml ∧ u.any Tree.isMap = true ∧ Readable.isMap default = true) →
    (c.ask fs (.getOr path default [])).1 = .ok (got.getD default)
  /-- A map of XML is read where the default is a map. -/
  getOr_map : ∀ {α : Type} [Readable α] (default : α),
    c.format = .xml → u.any Tree.isMap = true → Readable.isMap default = true →
    (c.ask fs (.get α path [])).1 = .ok none ∧
      (c.ask fs (.getOr path default [])).1 = .ok ((u.bind Readable.read).getD default)
  /-- Among defaults that are all maps, or none of them, either each is given back or the same
  value stands for all. -/
  independent : ∀ (α : Type) [Readable α] (isMap : Bool),
    (∀ default : α, Readable.isMap default = isMap →
      (c.ask fs (.getOr path default [])).1 = .ok default) ∨
    ∃ a : α, ∀ default : α, Readable.isMap default = isMap →
      (c.ask fs (.getOr path default [])).1 = .ok a

/-- In a configuration with a tree, all accessors share one notion of what is there. -/
theorem accessors_agree {c : Config} {t : Tree} (loaded : c.cached = some t) {path : String}
    {tokens : List Path.Token} (valid : Path.tokenize path [] = .ok tokens) (fs : FileSystem) :
    ∃ u, AccessorsAgree fs c path (Path.walk c.format t tokens) u := by
  have asked {β : Type} {q : Query β} (h : q.tokens = .ok tokens) :
      (c.ask fs q).1 = .ok (q.answer c.format t (Path.walk c.format t tokens)) :=
    Config.answer_of_cached loaded h
  generalize Path.walk c.format t tokens = found at asked
  have got (α : Type) [Readable α] : (c.ask fs (.get α path [])).1 =
      .ok ((present? c.format false found).bind Readable.read) := by
    rw [asked (q := .get α path []) valid, Query.answer, resolve_none]
  have gotOr {α : Type} [Readable α] (default : α) : (c.ask fs (.getOr path default [])).1 =
      .ok (((present? c.format (Readable.isMap default) found).bind
        Readable.read).getD default) := by
    rw [asked (q := .getOr path default []) valid, Query.answer, resolve_eq]
  refine ⟨present? c.format true found, ?_⟩
  constructor
  case value => exact asked (q := .value path []) valid
  case present =>
    intro t
    exact present?_true_eq_some_iff
  case has => exact asked (q := .has path) valid
  case keys => rw [asked (q := .keys path) valid, Query.answer, keys_found c.format]
  case get =>
    intro α _
    rw [got, present?_eq false]
    by_cases hidden : c.format = .xml ∧ (present? c.format true found).any Tree.isMap = true
    · rw [if_pos ⟨hidden.1, hidden.2, rfl⟩, if_pos hidden]
      rfl
    · rw [if_neg fun h => hidden ⟨h.1, h.2.1⟩, if_neg hidden]
  case getOr =>
    intro α _ default read hr seen
    rw [got] at hr
    obtain rfl := Except.ok.inj hr
    rw [gotOr]
    cases hm : Readable.isMap default with
    | false => rfl
    | true => rw [present?_eq false, if_neg fun h => seen ⟨h.1, h.2.1, hm⟩]
  case getOr_map =>
    intro α _ default xml map isMap
    rw [got, gotOr, isMap, present?_eq false, if_pos ⟨xml, map, rfl⟩]
    exact ⟨rfl, rfl⟩
  case independent =>
    intro α _ isMap
    cases hr : ((present? c.format isMap found).bind Readable.read : Option α) with
    | none =>
      left
      intro default hd
      rw [gotOr, hd, hr]
      rfl
    | some a =>
      refine .inr ⟨a, ?_⟩
      intro default hd
      rw [gotOr, hd, hr]
      rfl

/-- A default that is a map gets the map of an element in XML, where `get` finds nothing. -/
theorem accessors_agree_element :
    ∃ c : Config, c = .ofTree .xml (.map [("a", .map [("k", .text "v")])]) ∧
      c.cached = some (.map [("a", .map [("k", .text "v")])]) ∧
      Path.tokenize "a" [] = .ok [.segment "a"] ∧
      (c.ask bareWorld (.has "a")).1 = .ok true ∧
      (c.ask bareWorld (.keys "a")).1 = .ok ["k"] ∧
      (c.ask bareWorld (.get (Entries Tree) "a" [])).1 = .ok none ∧
      (c.ask bareWorld (.getOr "a" ([] : Entries Tree) [])).1 = .ok [("k", .text "v")] := by
  have valid : Path.tokenize "a" [] = .ok [.segment "a"] := by rfl
  refine ⟨_, rfl, rfl, valid, ?_⟩
  obtain ⟨u, agree⟩ := accessors_agree
    (c := .ofTree .xml (.map [("a", .map [("k", .text "v")])])) rfl valid bareWorld
  obtain rfl : u = some (.map [("k", .text "v")]) :=
    (agree.present _).2 ⟨by rfl, by simp, by simp, by simp⟩
  have map := agree.getOr_map ([] : Entries Tree) rfl rfl rfl
  exact ⟨agree.has, agree.keys, map.1, map.2⟩

end ConfigTree
