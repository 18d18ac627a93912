import ConfigTree.Proofs.Json.Exchange
import ConfigTree.Proofs.Xml.Shape
import ConfigTree.Proofs.Yaml.Conversion

/-!
# Keys of documents

Whatever its format, no map of a document's tree has a key twice (`hasUniqueKeys_of_decode`), so
that every document can be written as JSON (`ofOffer?_offer_of_decode`). Of the collections that the
reader of JSON has open none gets a key twice, neither by one lexeme (`Reader.UniqueKeys.step?`) nor
by all of them (`Reader.UniqueKeys.run?`). The map of a YAML mapping and the map of properties are
what is left of inserted pairs.
-/

namespace ConfigTree

namespace Json

/-- No object in a value has a key twice. -/
def HasUniqueKeys (j : Json) : Prop :=
  j.toTree.all Tree.hasUniqueKeys = true

variable {j : Json} {js : List Json} {ms members : Entries Json}

theorem keys_toEntries (ms : Entries Json) : Entries.keys (toEntries ms) = Entries.keys ms := by
  induction ms with
  | nil => rfl
  | cons m ms ih => exact congrArg (m.1 :: ·) ih

theorem hasUniqueKeys_array_iff : HasUniqueKeys (.array js) ↔ ∀ j ∈ js, HasUniqueKeys j := by
  rw [HasUniqueKeys, toTree, Tree.all_list]
  induction js with
  | nil => simp [Tree.hasUniqueKeys, toItems, Tree.allItems]
  | cons j js ih =>
    rw [toItems, Tree.allItems_cons, List.forall_mem_cons, ← ih]
    simp [Tree.hasUniqueKeys, HasUniqueKeys]

theorem allEntries_toEntries_iff :
    Tree.allEntries Tree.hasUniqueKeys (toEntries ms) = true ↔ ∀ m ∈ ms, HasUniqueKeys m.2 := by
  induction ms with
  | nil => simp [toEntries, Tree.allEntries]
  | cons m ms ih => rw [toEntries, Tree.allEntries_cons, List.forall_mem_cons, ← ih, HasUniqueKeys]

theorem hasUniqueKeys_object_iff :
    HasUniqueKeys (.object ms) ↔ Entries.Unique ms ∧ ∀ m ∈ ms, HasUniqueKeys m.2 := by
  rw [HasUniqueKeys, toTree, Tree.all_map, allEntries_toEntries_iff, Tree.hasUniqueKeys,
    decide_eq_true_iff, Entries.Unique, keys_toEntries, Entries.Unique]

/-- A further member, or another value of one that is there, does not make a key come twice. -/
theorem HasUniqueKeys.insert (object : HasUniqueKeys (.object members)) (value : HasUniqueKeys j)
    (key : String) : HasUniqueKeys (.object (Entries.insert key j members)) := by
  obtain ⟨unique, values⟩ := hasUniqueKeys_object_iff.1 object
  refine hasUniqueKeys_object_iff.2 ⟨unique.insert, ?_⟩
  intro m member
  rcases unique.mem_insert member with rfl | there
  · exact value
  · exact values m there

/-- An open collection as far as it has been read. -/
def Hole.collection : Hole → Json
  | .item items => .array items
  | .member members _ => .object members

namespace Reader

/-- The collections that are open, the innermost first, or the value that is complete. -/
def values : Reader → List Json
  | .value holes => holes.map Hole.collection
  | .firstItem holes => holes.map Hole.collection
  | .firstKey holes => holes.map Hole.collection
  | .key members holes => .object members :: holes.map Hole.collection
  | .colon members _ holes => .object members :: holes.map Hole.collection
  | .nextItem items holes => .array items :: holes.map Hole.collection
  | .nextMember members holes => .object members :: holes.map Hole.collection
  | .done v => [v]

/-- Nothing that has been read has a key twice. -/
def UniqueKeys (r : Reader) : Prop :=
  ∀ j ∈ r.values, HasUniqueKeys j

variable {r r' : Reader} {l : Lexeme} {holes : List Hole}

theorem uniqueKeys_put (value : HasUniqueKeys j)
    (outside : ∀ v ∈ holes.map Hole.collection, HasUniqueKeys v) : (put j holes).UniqueKeys := by
  match holes with
  | [] => exact List.forall_mem_singleton.2 value
  | .item items :: holes =>
    obtain ⟨array, outside⟩ := List.forall_mem_cons.1 outside
    have items := hasUniqueKeys_array_iff.1 array
    have longer := List.forall_mem_cons.2 ⟨value, items⟩
    exact List.forall_mem_cons.2 ⟨hasUniqueKeys_array_iff.2 longer, outside⟩
  | .member members k :: holes =>
    obtain ⟨object, outside⟩ := List.forall_mem_cons.1 outside
    exact List.forall_mem_cons.2 ⟨HasUniqueKeys.insert object value k, outside⟩

theorem uniqueKeys_begin? (outside : ∀ v ∈ holes.map Hole.collection, HasUniqueKeys v)
    (step : begin? holes l = some r') : r'.UniqueKeys := by
  cases l with
  | null | bool | number | string =>
    obtain rfl := Option.some.inj step
    exact uniqueKeys_put rfl outside
  | openArray | openObject =>
    rw [begin?] at step
    split at step
    · obtain rfl := Option.some.inj step
      exact outside
    · cases step
  | closeArray | closeObject | comma | colon => cases step

theorem UniqueKeys.step? (h : r.UniqueKeys) (step : r.step? l = some r') : r'.UniqueKeys := by
  unfold Reader.step? at step
  split at step
  · exact uniqueKeys_begin? h step
  · obtain rfl := Option.some.inj step
    exact uniqueKeys_put rfl h
  · -- a first item, of an array that has none so far
    have array : HasUniqueKeys (.array []) := rfl
    refine uniqueKeys_begin? ?_ step
    exact List.forall_mem_cons.2 ⟨array, h⟩
  · obtain rfl := Option.some.inj step
    exact uniqueKeys_put rfl h
  · -- a first key, of an object that has no members so far
    obtain rfl := Option.some.inj step
    exact List.forall_mem_cons.2 ⟨rfl, h⟩
  · obtain rfl := Option.some.inj step
    exact h
  · obtain rfl := Option.some.inj step
    exact h
  · obtain rfl := Option.some.inj step
    exact h
  · -- the end of an array, whose items have been gathered the last one first
    obtain rfl := Option.some.inj step
    obtain ⟨array, outside⟩ := List.forall_mem_cons.1 h
    refine uniqueKeys_put (hasUniqueKeys_array_iff.2 ?_) outside
    intro j member
    exact hasUniqueKeys_array_iff.1 array j (List.mem_reverse.1 member)
  · obtain rfl := Option.some.inj step
    exact h
  · obtain rfl := Option.some.inj step
    obtain ⟨object, outside⟩ := List.forall_mem_cons.1 h
    exact uniqueKeys_put object outside
  · cases step

theorem UniqueKeys.run? {ls : List Lexeme} (h : r.UniqueKeys) (run : r.run? ls = some r') :
    r'.UniqueKeys := by
  induction ls generalizing r with
  | nil =>
    obtain rfl := Option.some.inj run
    exact h
  | cons l ls ih =>
    obtain ⟨next, step, rest⟩ := Option.bind_eq_some_iff.1 run
    exact ih (h.step? step) rest

end Reader

theorem hasUniqueKeys_of_parse? {text : String} (parsed : parse? text = some j) :
    HasUniqueKeys j := by
  obtain ⟨ls, -, read⟩ := Option.bind_eq_some_iff.1 parsed
  rw [ofLexemes?] at read
  split at read
  · next v complete =>
    obtain rfl := Option.some.inj read
    have start : (Reader.value []).UniqueKeys := List.forall_mem_nil _
    exact List.forall_mem_singleton.1 (start.run? complete)
  · cases read

end Json

namespace Yaml

theorem exists_mem_of_forall₂ {α β : Type} {r : α → β → Prop} {as : List α} {bs : List β} {b : β}
    (related : List.Forall₂ r as bs) (member : b ∈ bs) : ∃ a ∈ as, r a b := by
  induction related with
  | nil => cases member
  | cons here _ ih =>
    rcases List.mem_cons.1 member with rfl | later
    · exact ⟨_, List.mem_cons_self, here⟩
    · obtain ⟨a, inside, there⟩ := ih later
      exact ⟨a, List.mem_cons_of_mem _ inside, there⟩

/-- What is left of the pairs of a mapping has unique keys, and so it is with the mappings inside. -/
theorem hasUniqueKeys_of_toTree {v : Yaml} {t : Tree} (read : v.toTree = .ok t) :
    t.all Tree.hasUniqueKeys = true := by
  induction v using Yaml.induction generalizing t with
  | null | bool | number | string =>
    obtain rfl := Except.ok.inj read
    rfl
  | sequence xs ih =>
    obtain ⟨ts, items, rfl⟩ := map_eq_ok_iff.1 read
    refine Tree.all_list.2 ⟨rfl, Tree.allItems_iff.2 ?_⟩
    intro t member
    obtain ⟨x, inside, tree⟩ := exists_mem_of_forall₂ (toItems_eq_ok_iff.1 items) member
    exact ih x inside tree
  | mapping es ih =>
    obtain ⟨ps, pairs, rfl⟩ := map_eq_ok_iff.1 read
    apply Tree.hasUniqueKeys_ofPairs
    intro p member
    obtain ⟨e, inside, -, tree⟩ := exists_mem_of_forall₂ (toPairs_eq_ok_iff.1 pairs) member
    exact ih e inside tree
  | tagged tag v ih => exact ih read

end Yaml

namespace Properties

variable {pairs : List (String × Tree)} {e : String × Tree}

/-- A line holds texts. -/
theorem exists_text_of_pairs? {line : Line} (read : line.pairs? = some pairs)
    (member : e ∈ pairs) : ∃ s, e.2 = .text s := by
  cases line with
  | blank =>
    obtain rfl := Option.some.inj read
    cases member
  | comment text =>
    obtain ⟨-, -, rfl⟩ := Option.map_eq_some_iff.1 read
    cases member
  | entry key value =>
    obtain ⟨k, -, read⟩ := Option.bind_eq_some_iff.1 read
    obtain ⟨v, -, rfl⟩ := Option.map_eq_some_iff.1 read
    obtain rfl := List.mem_singleton.1 member
    exact ⟨.ofList v, rfl⟩

theorem exists_text_of_mapM {lines : List (List Char)} {held : List (List (String × Tree))}
    (mapped : (lines.mapM fun line => (Line.ofText line).pairs?) = some held)
    (member : e ∈ held.flatten) : ∃ s, e.2 = .text s := by
  induction lines generalizing held with
  | nil =>
    obtain rfl := Option.some.inj mapped
    cases member
  | cons line lines ih =>
    rw [List.mapM_cons] at mapped
    obtain ⟨pairs, first, mapped⟩ := Option.bind_eq_some_iff.1 mapped
    obtain ⟨later, rest, mapped⟩ := Option.bind_eq_some_iff.1 mapped
    obtain rfl := Option.some.inj mapped
    rcases List.mem_append.1 member with here | there
    · exact exists_text_of_pairs? first here
    · exact ih rest there

theorem hasUniqueKeys_of_decode {text : String} {t : Tree} (read : decode text = .ok t) :
    t.all Tree.hasUniqueKeys = true := by
  rw [decode] at read
  split at read
  · next pairs lines =>
    obtain rfl := Except.ok.inj read
    obtain ⟨held, mapped, rfl⟩ := Option.map_eq_some_iff.1 lines
    apply Tree.hasUniqueKeys_ofPairs
    intro e member
    obtain ⟨s, text⟩ := exists_text_of_mapM mapped member
    rw [text]
    rfl
  · cases read

end Properties

/-- No map of a tree that is read has a key twice, whatever the format and the text. -/
theorem hasUniqueKeys_of_decode {format : Format} {text : String} {t : Tree}
    (read : decode format text = .ok t) : t.all Tree.hasUniqueKeys = true := by
  cases format with
  | json =>
    have read : Json.decode text = .ok t := mapError_eq_ok_iff.1 read
    rw [Json.decode] at read
    split at read
    · next j parsed =>
      obtain rfl := Except.ok.inj read
      exact Json.hasUniqueKeys_of_parse? parsed
    · cases read
  | yaml =>
    have read : Yaml.decode text = .ok t := mapError_eq_ok_iff.1 read
    rw [Yaml.decode] at read
    split at read
    · exact Yaml.hasUniqueKeys_of_toTree read
    · cases read
  | xml =>
    have read : Xml.decode text = .ok t := mapError_eq_ok_iff.1 read
    obtain ⟨parts, -, rfl⟩ := Xml.exists_isDocument_of_decode read
    exact Xml.hasUniqueKeys_documentTree parts
  | properties =>
    have read : Properties.decode text = .ok t := mapError_eq_ok_iff.1 read
    exact Properties.hasUniqueKeys_of_decode read

/-- Whatever is read is taken in as JSON without fail. -/
theorem ofOffer?_offer_of_decode {format : Format} {text : String} {t : Tree}
    (read : decode format text = .ok t) : Json.ofOffer? t.offer = some (Json.ofTree t) :=
  Json.ofOffer?_offer t (hasUniqueKeys_of_decode read)

end ConfigTree
