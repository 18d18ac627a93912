import ConfigTree.Proofs.Decimal.Numeral
import ConfigTree.Proofs.Entries.Lookup
import ConfigTree.Yaml.Tree
import Mathlib.Data.List.Forall2

/-!
# The tree of a YAML value

Which values have a tree, and what it holds. A value has none exactly when a mapping in it has a key
that is a collection (`toTree_eq_error_iff`). A mapping becomes a map with the texts of its keys in
the order in which they first come, and each key has the tree of the last value under it
(`exists_of_toTree_mapping`). `HasKeyText` says what these texts are. A string meets every scalar that
it spells, as `"1"` meets `1`, while of nulls, flags and integers no two meet
(`untagged_eq_of_hasKeyText`). Tags count nowhere (`toTree_withoutTags`).
-/

namespace ConfigTree.Yaml

open Binary (Double)
open Decimal (signedDigits)

/-- A value without the tags around it. -/
def untagged : Yaml → Yaml
  | .tagged _ v => v.untagged
  | v => v

/-- Whether a value is a sequence or a mapping. -/
def isCollection : Yaml → Bool
  | .sequence _ => true
  | .mapping _ => true
  | _ => false

/-- A mapping in a value, found through items, values of mappings and tags, has a key that is a
collection under its tags. -/
inductive HasCollectionKey : Yaml → Prop where
  | key {es : List (Yaml × Yaml)} {e : Yaml × Yaml} (member : e ∈ es)
      (collection : e.1.untagged.isCollection = true) : HasCollectionKey (.mapping es)
  | value {es : List (Yaml × Yaml)} {e : Yaml × Yaml} (member : e ∈ es)
      (within : HasCollectionKey e.2) : HasCollectionKey (.mapping es)
  | item {xs : List Yaml} {x : Yaml} (member : x ∈ xs) (within : HasCollectionKey x) :
      HasCollectionKey (.sequence xs)
  | tagged {tag : String} {v : Yaml} (within : HasCollectionKey v) : HasCollectionKey (.tagged tag v)

mutual

/-- A value without any tags, be it around values or keys. -/
def withoutTags : Yaml → Yaml
  | .null => .null
  | .bool b => .bool b
  | .number n => .number n
  | .string s => .string s
  | .sequence xs => .sequence (itemsWithoutTags xs)
  | .mapping es => .mapping (entriesWithoutTags es)
  | .tagged _ v => withoutTags v

/-- The items of a sequence without any tags. -/
def itemsWithoutTags : List Yaml → List Yaml
  | [] => []
  | x :: xs => withoutTags x :: itemsWithoutTags xs

/-- The keys and values of a mapping without any tags. -/
def entriesWithoutTags : List (Yaml × Yaml) → List (Yaml × Yaml)
  | [] => []
  | (k, v) :: es => (withoutTags k, withoutTags v) :: entriesWithoutTags es

end

/-- The text under which a map holds what a mapping has under a scalar. -/
inductive HasKeyText : Yaml → String → Prop where
  | null : HasKeyText .null "null"
  | bool (b : Bool) : HasKeyText (.bool b) (if b then "true" else "false")
  | integer (z : Int) : HasKeyText (.number (.integer z)) (String.ofList (signedDigits z))
  | double (x : Double) :
      HasKeyText (.number (.double x)) (String.ofList (keyStyle.write .double x.value))
  | string (s : String) : HasKeyText (.string s) s
  | tagged {tag : String} {v : Yaml} {key : String} (within : HasKeyText v key) :
      HasKeyText (.tagged tag v) key

/-- Whether a value is a null, a flag or an integer. -/
def isPlainScalar : Yaml → Bool
  | .null => true
  | .bool _ => true
  | .number (.integer _) => true
  | _ => false

/-- The null, flag or integer with a text. -/
def readPlain? (key : String) : Option Yaml :=
  if key = "null" then some .null
  else if key = "true" then some (.bool true)
  else if key = "false" then some (.bool false)
  else (Decimal.integer? key.toList).map fun z => .number (.integer z)

/-- The value of the last entry whose key has the given text. -/
def lastUnder? (key : String) (es : List (Yaml × Yaml)) : Option Yaml :=
  (es.reverse.find? fun e => e.1.keyText? == some key).map Prod.snd

/-- What holds of a value when it holds of its items, of the values of its entries, or under its tag,
holds of every value. -/
@[elab_as_elim]
theorem induction {motive : Yaml → Prop} (null : motive .null) (bool : ∀ b, motive (.bool b))
    (number : ∀ n, motive (.number n)) (string : ∀ s, motive (.string s))
    (sequence : ∀ xs, (∀ x ∈ xs, motive x) → motive (.sequence xs))
    (mapping : ∀ es : List (Yaml × Yaml), (∀ e ∈ es, motive e.2) → motive (.mapping es))
    (tagged : ∀ tag v, motive v → motive (.tagged tag v)) : ∀ v, motive v
  | .null => null
  | .bool b => bool b
  | .number n => number n
  | .string s => string s
  | .sequence xs => sequence xs fun x _ =>
    induction null bool number string sequence mapping tagged x
  | .mapping es => mapping es fun e _ =>
    induction null bool number string sequence mapping tagged e.2
  | .tagged tag v => tagged tag v (induction null bool number string sequence mapping tagged v)
decreasing_by
  · decreasing_tactic
  · next member =>
    have whole := List.sizeOf_lt_of_mem member
    obtain ⟨k, v⟩ := e
    simp only [Yaml.mapping.sizeOf_spec, Prod.mk.sizeOf_spec] at whole ⊢
    omega
  · decreasing_tactic

variable {v w : Yaml} {xs : List Yaml} {es : List (Yaml × Yaml)} {f : Fault}

theorem keyText?_untagged (k : Yaml) : k.untagged.keyText? = k.keyText? := by
  induction k using Yaml.induction with
  | tagged tag k ih => exact ih
  | _ => rfl

/-- A value has no text as a key just if it is a collection under its tags. -/
theorem keyText?_eq_none_iff {k : Yaml} : k.keyText? = none ↔ k.untagged.isCollection = true := by
  rw [← keyText?_untagged]
  have bare : ∀ tag v, k.untagged ≠ .tagged tag v := by
    induction k using Yaml.induction with
    | tagged tag k ih => exact ih
    | _ => simp [untagged]
  cases under : k.untagged with
  | tagged tag v => exact absurd under (bare tag v)
  | _ => simp [keyText?, isCollection]

/-- A scalar has its text for a key, whatever its tags, and nothing else has a key. -/
theorem keyText?_eq_some_iff {k : Yaml} {key : String} :
    k.keyText? = some key ↔ HasKeyText k key := by
  constructor
  · intro text
    induction k using Yaml.induction with
    | null =>
      obtain rfl := Option.some.inj text
      exact .null
    | bool b =>
      obtain rfl := Option.some.inj text
      exact .bool b
    | number n =>
      obtain rfl := Option.some.inj text
      cases n with
      | integer z => exact .integer z
      | double x => exact .double x
    | string s =>
      obtain rfl := Option.some.inj text
      exact .string s
    | sequence | mapping => cases text
    | tagged tag k ih => exact .tagged (ih text)
  · intro text
    induction text with
    | tagged _ ih => exact ih
    | _ => rfl

theorem HasKeyText.untagged {k : Yaml} {key : String} (h : HasKeyText k key) :
    HasKeyText k.untagged key := by
  rw [← keyText?_eq_some_iff, keyText?_untagged, keyText?_eq_some_iff]
  exact h

theorem integer?_signedDigits (z : Int) : Decimal.integer? (signedDigits z) = some z :=
  Decimal.integer?_eq_some_iff.2 (Decimal.Numeral.isPlain_and_spells_iff.2 (.inl rfl)).2

theorem readPlain?_of_hasKeyText {key : String} (text : HasKeyText v key)
    (plain : v.isPlainScalar = true) : readPlain? key = some v := by
  cases text with
  | null => rfl
  | bool b => cases b <;> rfl
  | integer z =>
    have no_word {word : String} (letters : Decimal.integer? word.toList = none) :
        String.ofList (signedDigits z) ≠ word := by
      rintro rfl
      rw [String.toList_ofList, integer?_signedDigits] at letters
      cases letters
    rw [readPlain?, if_neg (no_word (by decide)), if_neg (no_word (by decide)),
      if_neg (no_word (by decide)), String.toList_ofList, integer?_signedDigits]
    rfl
  | double | string | tagged => cases plain

/-- Nulls, flags and integers are told apart by their texts. -/
theorem untagged_eq_of_hasKeyText {key : String} (first : HasKeyText v key)
    (second : HasKeyText w key) (plain : v.untagged.isPlainScalar = true)
    (plain' : w.untagged.isPlainScalar = true) : v.untagged = w.untagged := by
  have back := readPlain?_of_hasKeyText first.untagged plain
  have back' := readPlain?_of_hasKeyText second.untagged plain'
  exact Option.some.inj (back.symm.trans back')

theorem toTree_untagged (v : Yaml) : v.untagged.toTree = v.toTree := by
  induction v using Yaml.induction with
  | tagged tag v ih => rw [untagged, toTree, ih]
  | _ => rfl

theorem map_eq_error_iff {α β : Type} {x : Except Fault α} {g : α → β} :
    x.map g = .error f ↔ x = .error f := by
  cases x <;> simp [Except.map]

theorem map_eq_ok_iff {α β : Type} {x : Except Fault α} {g : α → β} {b : β} :
    x.map g = .ok b ↔ ∃ a, x = .ok a ∧ g a = b := by
  cases x <;> simp [Except.map]

theorem bind_eq_ok_iff {α β : Type} {x : Except Fault α} {g : α → Except Fault β} {b : β} :
    x.bind g = .ok b ↔ ∃ a, x = .ok a ∧ g a = .ok b := by
  cases x <;> simp [Except.bind]

theorem toItems_eq_ok_iff {ts : List Tree} :
    toItems xs = .ok ts ↔ List.Forall₂ (fun x t => x.toTree = .ok t) xs ts := by
  induction xs generalizing ts with
  | nil => simp [toItems, eq_comm]
  | cons x xs ih =>
    rw [toItems, bind_eq_ok_iff, List.forall₂_cons_left_iff]
    simp only [map_eq_ok_iff, ih]
    constructor
    · rintro ⟨t, tree, ts, items, rfl⟩
      exact ⟨t, ts, tree, items, rfl⟩
    · rintro ⟨t, ts, tree, items, rfl⟩
      exact ⟨t, tree, ts, items, rfl⟩

/-- What an entry of a mapping becomes: the text of its key, and the tree of its value. -/
def Becomes (e : Yaml × Yaml) (p : String × Tree) : Prop :=
  e.1.keyText? = some p.1 ∧ e.2.toTree = .ok p.2

theorem toPairs_eq_ok_iff {ps : List (String × Tree)} :
    toPairs es = .ok ps ↔ List.Forall₂ Becomes es ps := by
  induction es generalizing ps with
  | nil => simp [toPairs, eq_comm]
  | cons e es ih =>
    obtain ⟨k, v⟩ := e
    rw [toPairs, List.forall₂_cons_left_iff]
    cases text : k.keyText? with
    | none => simp [Becomes, text]
    | some key =>
      simp only [bind_eq_ok_iff, map_eq_ok_iff, ih]
      constructor
      · rintro ⟨t, tree, ps, pairs, rfl⟩
        exact ⟨(key, t), ps, ⟨text, tree⟩, pairs, rfl⟩
      · rintro ⟨⟨key', t⟩, ps, ⟨text', tree⟩, pairs, rfl⟩
        obtain rfl := Option.some.inj (text.symm.trans text')
        exact ⟨t, tree, ps, pairs, rfl⟩

theorem collectionKey_eq_error_iff {α : Type} {reason : Prop} (h : reason) :
    (Except.error .collectionKey : Except Fault α) = .error f ↔ f = .collectionKey ∧ reason := by
  simp [h, eq_comm]

theorem not_hasCollectionKey_of_ok {t : Tree} (tree : v.toTree = .ok t)
    (fails : ∀ f, v.toTree = .error f ↔ f = .collectionKey ∧ HasCollectionKey v) :
    ¬HasCollectionKey v := by
  intro within
  cases tree.symm.trans ((fails _).2 ⟨rfl, within⟩)

theorem toItems_eq_error_iff
    (items : ∀ x ∈ xs, ∀ f, x.toTree = .error f ↔ f = .collectionKey ∧ HasCollectionKey x) :
    toItems xs = .error f ↔ f = .collectionKey ∧ ∃ x ∈ xs, HasCollectionKey x := by
  induction xs with
  | nil => simp [toItems]
  | cons x xs ih =>
    obtain ⟨first, rest⟩ := List.forall_mem_cons.1 items
    rw [toItems, List.exists_mem_cons_iff]
    cases tree : x.toTree with
    | error g =>
      obtain ⟨rfl, within⟩ := (first g).1 tree
      exact collectionKey_eq_error_iff (.inl within)
    | ok t =>
      have free := not_hasCollectionKey_of_ok tree first
      simp [Except.bind, map_eq_error_iff, free, ih rest]

theorem toPairs_eq_error_iff
    (values : ∀ e ∈ es, ∀ f, e.2.toTree = .error f ↔ f = .collectionKey ∧ HasCollectionKey e.2) :
    toPairs es = .error f ↔ f = .collectionKey ∧
      ∃ e ∈ es, e.1.untagged.isCollection = true ∨ HasCollectionKey e.2 := by
  induction es with
  | nil => simp [toPairs]
  | cons e es ih =>
    obtain ⟨first, rest⟩ := List.forall_mem_cons.1 values
    obtain ⟨k, v⟩ := e
    rw [toPairs, List.exists_mem_cons_iff]
    cases text : k.keyText? with
    | none =>
      have collection := keyText?_eq_none_iff.1 text
      exact collectionKey_eq_error_iff (.inl (.inl collection))
    | some key =>
      have plain : k.untagged.isCollection ≠ true := by
        rw [ne_eq, ← keyText?_eq_none_iff, text]
        exact Option.some_ne_none key
      cases tree : v.toTree with
      | error g =>
        obtain ⟨rfl, within⟩ := (first g).1 tree
        exact collectionKey_eq_error_iff (.inl (.inr within))
      | ok t =>
        have free := not_hasCollectionKey_of_ok tree first
        simp [Except.bind, map_eq_error_iff, plain, free, ih rest]

theorem hasCollectionKey_sequence :
    HasCollectionKey (.sequence xs) ↔ ∃ x ∈ xs, HasCollectionKey x := by
  constructor
  · rintro (_ | _ | ⟨member, within⟩)
    exact ⟨_, member, within⟩
  · rintro ⟨x, member, within⟩
    exact .item member within

theorem hasCollectionKey_mapping :
    HasCollectionKey (.mapping es) ↔
      ∃ e ∈ es, e.1.untagged.isCollection = true ∨ HasCollectionKey e.2 := by
  constructor
  · rintro (⟨member, collection⟩ | ⟨member, within⟩)
    · exact ⟨_, member, .inl collection⟩
    · exact ⟨_, member, .inr within⟩
  · rintro ⟨e, member, collection | within⟩
    · exact .key member collection
    · exact .value member within

theorem hasCollectionKey_tagged {tag : String} :
    HasCollectionKey (.tagged tag v) ↔ HasCollectionKey v := by
  constructor
  · rintro (_ | _ | _ | within)
    exact within
  · exact .tagged

/-- A value has no tree just if there is a key in it that is a collection, which is what is wrong. -/
theorem toTree_eq_error_iff (v : Yaml) (f : Fault) :
    v.toTree = .error f ↔ f = .collectionKey ∧ HasCollectionKey v := by
  induction v using Yaml.induction generalizing f with
  | null | bool b | number n | string s =>
    constructor
    · intro failed
      cases failed
    · rintro ⟨-, within⟩
      cases within
  | sequence xs ih => rw [toTree, map_eq_error_iff, toItems_eq_error_iff ih, hasCollectionKey_sequence]
  | mapping es ih => rw [toTree, map_eq_error_iff, toPairs_eq_error_iff ih, hasCollectionKey_mapping]
  | tagged tag v ih => rw [toTree, ih, hasCollectionKey_tagged]

/-- The first entry whose key has a text becomes the first pair under that text. -/
theorem exists_find?_of_becomes {ps : List (String × Tree)} (becomes : List.Forall₂ Becomes es ps)
    {key : String} {t : Tree} (found : Entries.find? key ps = some t) :
    ∃ e, es.find? (fun e => e.1.keyText? == some key) = some e ∧ e.2.toTree = .ok t := by
  induction becomes with
  | nil => cases found
  | @cons e p es ps here _ ih =>
    obtain ⟨text, tree⟩ := here
    rw [Entries.find?] at found
    rw [List.find?_cons, text]
    split at found
    · next same =>
      obtain rfl := Option.some.inj found
      exact ⟨e, by simp [same], tree⟩
    · next differs =>
      rw [beq_eq_false_iff_ne.2 (mt Option.some.inj differs)]
      exact ih found

theorem map_fst_of_becomes {ps : List (String × Tree)} (becomes : List.Forall₂ Becomes es ps) :
    ps.map Prod.fst = es.filterMap fun e => e.1.keyText? := by
  induction becomes with
  | nil => rfl
  | cons here _ ih => rw [List.map_cons, List.filterMap_cons, here.1, ih]

/-- What a mapping becomes, if it has a tree. -/
theorem exists_of_toTree_mapping {t : Tree} (read : (Yaml.mapping es).toTree = .ok t) :
    ∃ m, t = .map m ∧ Entries.keys m = (es.filterMap fun e => e.1.keyText?).eraseDups ∧
      ∀ key ∈ Entries.keys m, ∃ x u, lastUnder? key es = some x ∧ x.toTree = .ok u ∧
        Entries.find? key m = some u := by
  rw [toTree, map_eq_ok_iff] at read
  obtain ⟨ps, pairs, rfl⟩ := read
  have becomes := toPairs_eq_ok_iff.1 pairs
  refine ⟨_, rfl, ?_, ?_⟩
  · rw [Entries.keys_ofPairs, Entries.firstKeys, map_fst_of_becomes becomes]
  · intro key member
    obtain ⟨u, found⟩ := Entries.exists_find?_of_mem_keys member
    have last := found
    rw [Entries.find?_ofPairs] at last
    obtain ⟨e, here, tree⟩ := exists_find?_of_becomes (List.forall₂_reverse_iff.2 becomes) last
    exact ⟨e.2, u, by rw [lastUnder?, here]; rfl, tree, found⟩

theorem keyText?_withoutTags (k : Yaml) : k.withoutTags.keyText? = k.keyText? := by
  induction k using Yaml.induction with
  | tagged tag k ih => rw [withoutTags, ih, keyText?]
  | _ => rfl

/-- Tags around values and around keys change nothing. -/
theorem toTree_withoutTags (v : Yaml) : v.withoutTags.toTree = v.toTree := by
  induction v using Yaml.induction with
  | null | bool b | number n | string s => rfl
  | sequence xs ih =>
    have items : toItems (itemsWithoutTags xs) = toItems xs := by
      induction xs with
      | nil => rfl
      | cons x xs later =>
        obtain ⟨first, rest⟩ := List.forall_mem_cons.1 ih
        rw [itemsWithoutTags, toItems, toItems, first, later rest]
    rw [withoutTags, toTree, toTree, items]
  | mapping es ih =>
    have pairs : toPairs (entriesWithoutTags es) = toPairs es := by
      induction es with
      | nil => rfl
      | cons e es later =>
        obtain ⟨first, rest⟩ := List.forall_mem_cons.1 ih
        obtain ⟨k, v⟩ := e
        rw [entriesWithoutTags, toPairs, toPairs, keyText?_withoutTags, first, later rest]
    rw [withoutTags, toTree, toTree, pairs]
  | tagged tag v ih => rw [withoutTags, toTree, ih]

/-- What becomes of a value. -/
structure Converts (v : Yaml) : Prop where
  fails : ∀ f, v.toTree = .error f ↔ f = .collectionKey ∧ HasCollectionKey v
  sequence : ∀ xs, v.untagged = .sequence xs → ∀ t, v.toTree = .ok t →
    ∃ ts, t = .list ts ∧ List.Forall₂ (fun x t => x.toTree = .ok t) xs ts
  /-- The keys of a map are the texts of the keys of the mapping, each where it first came, and under
  each of them stands the tree of the last value that has it. -/
  mapping : ∀ es, v.untagged = .mapping es → ∀ t, v.toTree = .ok t →
    ∃ m, t = .map m ∧ Entries.keys m = (es.filterMap fun e => e.1.keyText?).eraseDups ∧
      ∀ key ∈ Entries.keys m, ∃ x u, lastUnder? key es = some x ∧ x.toTree = .ok u ∧
        Entries.find? key m = some u
  key : ∀ text, v.keyText? = some text ↔ HasKeyText v text
  /-- As keys a scalar and the string that spells it are one. -/
  meets_string : ∀ text, HasKeyText v text → (Yaml.string text).keyText? = v.keyText?
  /-- Of nulls, flags and integers, each is its own key. -/
  apart : ∀ (w : Yaml) (text : String), HasKeyText v text → HasKeyText w text →
    v.untagged.isPlainScalar = true → w.untagged.isPlainScalar = true → v.untagged = w.untagged
  /-- Values that differ in tags alone, around any values or keys in them, become the same. -/
  tags : ∀ w : Yaml, w.withoutTags = v.withoutTags → w.toTree = v.toTree

/-- What becomes of every value. -/
theorem toTree_converts (v : Yaml) : Converts v := by
  constructor
  case fails => exact toTree_eq_error_iff v
  case sequence =>
    intro xs under t read
    rw [← toTree_untagged, under, toTree, map_eq_ok_iff] at read
    obtain ⟨ts, items, rfl⟩ := read
    exact ⟨ts, rfl, toItems_eq_ok_iff.1 items⟩
  case mapping =>
    intro es under t read
    rw [← toTree_untagged, under] at read
    exact exists_of_toTree_mapping read
  case key => exact fun _ => keyText?_eq_some_iff
  case meets_string =>
    intro text h
    rw [keyText?_eq_some_iff.2 h]
    rfl
  case apart =>
    intro w text first second plain plain'
    exact untagged_eq_of_hasKeyText first second plain plain'
  case tags =>
    intro w same
    rw [← toTree_withoutTags w, same, toTree_withoutTags]

/-- An integer and a tagged text meet in one key, at the place of the first. -/
example : toTree (.mapping [(.number (.integer 1), .null), (.string "a", .sequence [.null]),
    (.tagged "!t" (.string "1"), .bool true)]) =
    .ok (.map [("1", .scalar (.bool true)), ("a", .list [.null])]) := by
  rfl

end ConfigTree.Yaml
