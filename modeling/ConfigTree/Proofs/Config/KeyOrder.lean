import ConfigTree.Proofs.Config.Accessors
import ConfigTree.Proofs.Path.Append
import ConfigTree.Proofs.Tree.Equality

/-!
# Lookups and the order of keys

Trees that are the same differ at most in the order of their keys and in the signs of zeros. A step
of a walk leads to nodes that are the same again, or from neither of two such trees anywhere
(`Reordered.child?`, `Reordered.item?`), and so does a walk (`Reordered.walk`). So both trees have a
node at a path or neither has, and with the same keys (`lookups_reordered`).
-/

namespace ConfigTree

/-- Two trees without repeated keys that are the same. -/
structure Reordered (a b : Tree) : Prop where
  unique : a.all Tree.hasUniqueKeys = true
  unique' : b.all Tree.hasUniqueKeys = true
  same : a.same b = true

section Rel

variable {α β : Type} {r : α → α → Prop} {s : β → β → Prop} {o o' : Option α}

theorem rel_iff : Option.Rel r o o' ↔
    o = none ∧ o' = none ∨ ∃ x y, o = some x ∧ o' = some y ∧ r x y := by
  constructor
  · intro h
    cases h with
    | none => exact .inl ⟨rfl, rfl⟩
    | some related => exact .inr ⟨_, _, rfl, rfl, related⟩
  · rintro (⟨rfl, rfl⟩ | ⟨x, y, rfl, rfl, related⟩)
    · exact .none
    · exact .some related

theorem rel_filter {p : α → Bool} (alike : ∀ x y, r x y → p x = p y) (h : Option.Rel r o o') :
    Option.Rel r (o.filter p) (o'.filter p) := by
  obtain ⟨rfl, rfl⟩ | ⟨x, y, rfl, rfl, related⟩ := rel_iff.1 h
  · exact .none
  · rw [Option.filter_some, Option.filter_some, alike x y related]
    split
    · exact .some related
    · exact .none

theorem rel_bind {f g : α → Option β} (step : ∀ x y, r x y → Option.Rel s (f x) (g y))
    (h : Option.Rel r o o') : Option.Rel s (o.bind f) (o'.bind g) := by
  obtain ⟨rfl, rfl⟩ | ⟨x, y, rfl, rfl, related⟩ := rel_iff.1 h
  · exact .none
  · exact step x y related

end Rel

namespace Reordered

variable {a b : Tree} {as bs : List Tree} {es fs : Entries Tree} {format : Format}

theorem length_list (h : Reordered (.list as) (.list bs)) : as.length = bs.length :=
  (Tree.same_list_iff.1 h.same).1

theorem getElem (h : Reordered (.list as) (.list bs)) {i : Nat} (ha : i < as.length)
    (hb : i < bs.length) : Reordered as[i] bs[i] where
  unique := Tree.all_of_mem_items (Tree.all_list.1 h.unique).2 (List.getElem_mem ha)
  unique' := Tree.all_of_mem_items (Tree.all_list.1 h.unique').2 (List.getElem_mem hb)
  same := (Tree.same_list_iff.1 h.same).2 i ha hb

theorem length_map (h : Reordered (.map es) (.map fs)) : es.length = fs.length :=
  (Tree.same_map_iff.1 h.same).1

theorem unique_keys (h : Reordered (.map es) (.map fs)) : Entries.Unique es ∧ Entries.Unique fs :=
  ⟨of_decide_eq_true (Tree.all_map.1 h.unique).1, of_decide_eq_true (Tree.all_map.1 h.unique').1⟩

/-- What stands under a key of the first map stands under it in the second. -/
theorem exists_find? (h : Reordered (.map es) (.map fs)) {key : String}
    (found : Entries.find? key es = some a) :
    ∃ b, Entries.find? key fs = some b ∧ Reordered a b := by
  obtain ⟨b, found', same⟩ := (Tree.same_map_iff.1 h.same).2 _ (Entries.mem_of_find? found)
  exact ⟨b, found', Tree.all_of_find? (Tree.all_map.1 h.unique).2 found,
    Tree.all_of_find? (Tree.all_map.1 h.unique').2 found', same⟩

/-- The second map has no other keys than the first. -/
theorem mem_keys_iff (h : Reordered (.map es) (.map fs)) (key : String) :
    key ∈ Entries.keys es ↔ key ∈ Entries.keys fs := by
  constructor
  · intro member
    obtain ⟨a, found⟩ := Entries.exists_find?_of_mem_keys member
    obtain ⟨b, found', -⟩ := h.exists_find? found
    exact Entries.mem_keys_of_mem (Entries.mem_of_find? found')
  · apply h.unique_keys.1.mem_keys_of_length_eq h.length_map
    intro e member
    obtain ⟨b, found, -⟩ := (Tree.same_map_iff.1 h.same).2 e member
    exact Entries.mem_keys_of_mem (Entries.mem_of_find? found)

theorem find? (h : Reordered (.map es) (.map fs)) (key : String) :
    Option.Rel Reordered (Entries.find? key es) (Entries.find? key fs) := by
  cases found : Entries.find? key es with
  | some a =>
    obtain ⟨b, found', reordered⟩ := h.exists_find? found
    rw [found']
    exact .some reordered
  | none =>
    cases found' : Entries.find? key fs with
    | none => exact .none
    | some b =>
      have member := Entries.mem_keys_of_mem (Entries.mem_of_find? found')
      obtain ⟨a, other⟩ := Entries.exists_find?_of_mem_keys ((h.mem_keys_iff key).2 member)
      rw [found] at other
      cases other

/-- Trees that are the same are of one kind. -/
theorem shape (h : Reordered a b) :
    (∃ s s', a = .scalar s ∧ b = .scalar s' ∧ s.same s' = true) ∨
      (∃ as bs, a = .list as ∧ b = .list bs) ∨ ∃ es fs, a = .map es ∧ b = .map fs := by
  have same := h.same
  cases a with
  | scalar s =>
    cases b with
    | scalar s' => exact .inl ⟨s, s', rfl, rfl, same⟩
    | list | map => cases same
  | list as =>
    cases b with
    | list bs => exact .inr (.inl ⟨as, bs, rfl, rfl⟩)
    | scalar | map => cases same
  | map es =>
    cases b with
    | map fs => exact .inr (.inr ⟨es, fs, rfl, rfl⟩)
    | scalar | list => cases same

theorem isNull_eq (h : Reordered a b) : a.isNull = b.isNull := by
  obtain ⟨s, s', rfl, rfl, same⟩ | ⟨as, bs, rfl, rfl⟩ | ⟨es, fs, rfl, rfl⟩ := h.shape
  · cases s <;> cases s' <;> first | rfl | cases same
  · rfl
  · rfl

theorem isMap_eq (h : Reordered a b) : a.isMap = b.isMap := by
  obtain ⟨s, s', rfl, rfl, same⟩ | ⟨as, bs, rfl, rfl⟩ | ⟨es, fs, rfl, rfl⟩ := h.shape <;> rfl

theorem isEmptyCollection_eq (h : Reordered a b) :
    a.isEmptyCollection = b.isEmptyCollection := by
  obtain ⟨s, s', rfl, rfl, same⟩ | ⟨as, bs, rfl, rfl⟩ | ⟨es, fs, rfl, rfl⟩ := h.shape
  · rfl
  · show as.isEmpty = bs.isEmpty
    rw [Bool.eq_iff_iff, List.isEmpty_iff_length_eq_zero, List.isEmpty_iff_length_eq_zero,
      h.length_list]
  · show es.isEmpty = fs.isEmpty
    rw [Bool.eq_iff_iff, List.isEmpty_iff_length_eq_zero, List.isEmpty_iff_length_eq_zero,
      h.length_map]

theorem isPresent_eq (h : Reordered a b) (wantsMap : Bool) :
    isPresent format wantsMap a = isPresent format wantsMap b := by
  rw [isPresent, isPresent, h.isNull_eq, h.isMap_eq, h.isEmptyCollection_eq]

theorem keys_perm (h : Reordered a b) : a.keys.Perm b.keys := by
  obtain ⟨s, s', rfl, rfl, same⟩ | ⟨as, bs, rfl, rfl⟩ | ⟨es, fs, rfl, rfl⟩ := h.shape
  · exact .nil
  · exact .nil
  · exact (List.perm_ext_iff_of_nodup h.unique_keys.1 h.unique_keys.2).2 h.mem_keys_iff

theorem item? (h : Reordered a b) (n : Nat) :
    Option.Rel Reordered (Path.item? n a) (Path.item? n b) := by
  obtain ⟨s, s', rfl, rfl, same⟩ | ⟨as, bs, rfl, rfl⟩ | ⟨es, fs, rfl, rfl⟩ := h.shape
  · exact .none
  · have length := h.length_list
    show Option.Rel Reordered as[n]? bs[n]?
    by_cases inside : n < as.length
    · rw [List.getElem?_eq_getElem inside, List.getElem?_eq_getElem (length ▸ inside)]
      exact .some (h.getElem _ _)
    · rw [List.getElem?_eq_none (by omega), List.getElem?_eq_none (by omega)]
      exact .none
  · exact .none

theorem child? (h : Reordered a b) (key : String) :
    Option.Rel Reordered (Path.child? key a) (Path.child? key b) := by
  obtain ⟨s, s', rfl, rfl, same⟩ | ⟨as, bs, rfl, rfl⟩ | ⟨es, fs, rfl, rfl⟩ := h.shape
  · exact .none
  · exact .none
  · apply rel_filter _ (h.find? key)
    intro x y related
    rw [related.isNull_eq]

theorem content? (h : Reordered a b) (format : Format) :
    Option.Rel Reordered (Path.content? format a) (Path.content? format b) := by
  unfold Path.content?
  cases format.rules.contentKey with
  | none => exact .none
  | some key => exact h.child? key

/-- A walk leads to nodes that are the same, or in neither tree anywhere. -/
theorem walk (h : Reordered a b) (format : Format) (tokens : List Path.Token) :
    Option.Rel Reordered (Path.walk format a tokens) (Path.walk format b tokens) := by
  induction tokens generalizing a b with
  | nil => exact .some h
  | cons token tokens ih =>
    unfold Path.walk
    cases token.step with
    | position n => exact rel_bind (fun x y related => ih related) (h.item? n)
    | key name =>
      apply rel_bind _ (h.child? name)
      intro x y related
      -- where the walk of one tree ends at content, so does that of the other
      obtain ⟨none, none'⟩ | ⟨u, v, content, content', ended⟩ :=
        rel_iff.1 (related.content? format)
      · rw [none, none']
        exact ih related
      · rw [content, content']
        exact .some ended

variable {o o' : Option Tree}

theorem isSome_present? (h : Option.Rel Reordered o o') (wantsMap : Bool) :
    (present? format wantsMap o).isSome = (present? format wantsMap o').isSome := by
  have present : Option.Rel Reordered (present? format wantsMap o) (present? format wantsMap o') :=
    rel_filter (fun x y related => related.isPresent_eq wantsMap) h
  obtain ⟨none, none'⟩ | ⟨x, y, found, found', -⟩ := rel_iff.1 present
  · rw [none, none']
  · rw [found, found']
    rfl

theorem perm_keys_found (h : Option.Rel Reordered o o') :
    ((o.map Tree.keys).getD []).Perm ((o'.map Tree.keys).getD []) := by
  obtain ⟨rfl, rfl⟩ | ⟨x, y, rfl, rfl, related⟩ := rel_iff.1 h
  · exact .nil
  · exact related.keys_perm

end Reordered

/-- Trees that are the same answer lookups alike: a walk leads to nodes that are the same or in
neither tree anywhere, a node is there in both or in none, and it has the same keys. -/
theorem lookups_reordered {a b : Tree} (unique : a.all Tree.hasUniqueKeys = true)
    (unique' : b.all Tree.hasUniqueKeys = true) (same : a.same b = true) (format : Format) :
    (∀ tokens, Option.Rel (fun x y => Tree.same x y = true) (Path.walk format a tokens)
      (Path.walk format b tokens)) ∧
    ∀ (fs : FileSystem) (path : String),
      (∃ present, ((Config.ofTree format a).ask fs (.has path)).1 = .ok present ∧
        ((Config.ofTree format b).ask fs (.has path)).1 = .ok present) ∧
      ∃ keys keys', ((Config.ofTree format a).ask fs (.keys path)).1 = .ok keys ∧
        ((Config.ofTree format b).ask fs (.keys path)).1 = .ok keys' ∧ keys.Perm keys' := by
  have reordered : Reordered a b := ⟨unique, unique', same⟩
  constructor
  · intro tokens
    obtain ⟨none, none'⟩ | ⟨x, y, found, found', related⟩ :=
      rel_iff.1 (reordered.walk format tokens)
    · rw [none, none']
      exact .none
    · rw [found, found']
      exact .some related.same
  · intro fs path
    have valid := Path.tokenize_nil path
    have asked {β : Type} {q : Query β} (t : Tree) (h : q.tokens = Path.tokenize path []) :
        ((Config.ofTree format t).ask fs q).1 = .ok (q.answer format t (Path.walk format t _)) :=
      Config.answer_of_cached rfl (h.trans valid)
    have ends := reordered.walk format
      ((Path.split (Text.trim path.toList)).map Path.Token.ofSegment)
    refine ⟨⟨_, asked (q := .has path) a rfl, ?_⟩, _, _, asked (q := .keys path) a rfl,
      asked (q := .keys path) b rfl, Reordered.perm_keys_found ends⟩
    exact (asked (q := .has path) b rfl).trans
      (congrArg Except.ok (Reordered.isSome_present? ends true).symm)

/-- Two zeros that differ in their sign are found under one key, and one map has its keys in two
orders. -/
theorem lookups_reordered_zeros :
    ∃ a b : Tree, a = Tree.twoDoubles (.zero true) (.zero false) ∧
      b = Tree.twoDoublesReordered (.zero false) (.zero true) ∧ a.same b = true ∧
      Option.Rel (fun x y => Tree.same x y = true)
        (some (.scalar (.number (.float (.zero true)))))
        (some (.scalar (.number (.float (.zero false))))) ∧
      ((Config.ofTree .xml a).ask bareWorld (.has "l.1")).1 = .ok true ∧
      ((Config.ofTree .xml b).ask bareWorld (.has "l.1")).1 = .ok true ∧
      ((Config.ofTree .xml a).ask bareWorld (.keys "l.1")).1 = .ok ["k", "m"] ∧
      ((Config.ofTree .xml b).ask bareWorld (.keys "l.1")).1 = .ok ["m", "k"] ∧
      ["k", "m"].Perm ["m", "k"] := by
  refine ⟨_, _, rfl, rfl, rfl, ?_⟩
  obtain ⟨walks, answers⟩ := lookups_reordered (a := Tree.twoDoubles (.zero true) (.zero false))
    (b := Tree.twoDoublesReordered (.zero false) (.zero true)) rfl rfl rfl .xml
  obtain ⟨⟨present, has, has'⟩, keys, keys', asked, asked', perm⟩ := answers bareWorld "l.1"
  have there : Except.ok true = Except.ok present := has
  have order : Except.ok ["k", "m"] = Except.ok keys := asked
  have order' : Except.ok ["m", "k"] = Except.ok keys' := asked'
  obtain rfl := Except.ok.inj there
  obtain rfl := Except.ok.inj order
  obtain rfl := Except.ok.inj order'
  exact ⟨walks [.segment "x"], has, has', asked, asked', perm⟩

end ConfigTree
