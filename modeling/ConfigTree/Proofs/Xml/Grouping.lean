import ConfigTree.Proofs.Entries.Tabulate
import ConfigTree.Xml.Document

/-!
# Grouping

What a frame makes of the values that it is given. `group` says it without a frame: each key
stands where it first came, a value that came alone stands for itself, and several values are a
list of all of them. `Frame.Groups.accumulate` is the step of one more value and `Groups.addAll`
the run: a frame groups its pairs, and remembers which keys came more than once. `Frame.Collects`
tells key by key what that is, and `collects_addAll` finds it in every frame that began empty.
-/

namespace ConfigTree.Xml

open Entries (firstKeys tabulate)

/-- The values that come under a key, in order. -/
def valuesUnder (key : String) (pairs : List (String × Tree)) : List Tree :=
  (pairs.filter fun p => p.1 == key).map Prod.snd

/-- What values under one key stand for: one for itself, several for the list of them. -/
def gather : List Tree → Tree
  | [t] => t
  | ts => .list ts

/-- Pairs grouped by their keys. -/
def group (pairs : List (String × Tree)) : Entries Tree :=
  tabulate (firstKeys pairs) fun key => gather (valuesUnder key pairs)

/-- The value of an element with the given pairs: its content if that is all, or else the map of
what it groups. -/
def collapse (pairs : List (String × Tree)) : Tree :=
  if firstKeys pairs = [contentKey] then gather (valuesUnder contentKey pairs)
  else .map (group pairs)

variable {pairs : List (String × Tree)} {key : String}

theorem gather_eq_list {ts : List Tree} (several : 2 ≤ ts.length) : gather ts = .list ts := by
  match ts, several with
  | _ :: _ :: _, _ => rfl

theorem valuesUnder_append (key : String) (pairs later : List (String × Tree)) :
    valuesUnder key (pairs ++ later) = valuesUnder key pairs ++ valuesUnder key later := by
  rw [valuesUnder, List.filter_append, List.map_append]
  rfl

theorem valuesUnder_cons (key k : String) (t : Tree) (pairs : List (String × Tree)) :
    valuesUnder key ((k, t) :: pairs) =
      if k = key then t :: valuesUnder key pairs else valuesUnder key pairs := by
  by_cases here : k = key <;> simp [valuesUnder, here]

theorem valuesUnder_concat (key k : String) (pairs : List (String × Tree)) (value : Tree) :
    valuesUnder k (pairs ++ [(key, value)]) =
      if k = key then valuesUnder k pairs ++ [value] else valuesUnder k pairs := by
  rw [valuesUnder_append, valuesUnder_cons]
  by_cases here : k = key
  · rw [if_pos here.symm, if_pos here]
    rfl
  · rw [if_neg (Ne.symm here), if_neg here]
    exact List.append_nil _

theorem valuesUnder_eq_nil_iff : valuesUnder key pairs = [] ↔ key ∉ firstKeys pairs := by
  rw [valuesUnder, List.map_eq_nil_iff, List.filter_eq_nil_iff, Entries.mem_firstKeys]
  grind

theorem find?_group (key : String) (pairs : List (String × Tree)) :
    Entries.find? key (group pairs) =
      if valuesUnder key pairs = [] then none else some (gather (valuesUnder key pairs)) := by
  rw [group, Entries.find?_tabulate]
  by_cases old : key ∈ firstKeys pairs
  · rw [if_pos old, if_neg fun none => valuesUnder_eq_nil_iff.1 none old]
  · rw [if_neg old, if_pos (valuesUnder_eq_nil_iff.2 old)]

theorem find?_group_of_single {t : Tree} (single : valuesUnder key pairs = [t]) :
    Entries.find? key (group pairs) = some t := by
  rw [find?_group, single, if_neg (List.cons_ne_nil t [])]
  rfl

theorem find?_group_of_several (several : 2 ≤ (valuesUnder key pairs).length) :
    Entries.find? key (group pairs) = some (.list (valuesUnder key pairs)) := by
  have some_values : valuesUnder key pairs ≠ [] := List.ne_nil_of_length_pos (by omega)
  rw [find?_group, if_neg some_values, gather_eq_list several]

theorem keys_group (pairs : List (String × Tree)) : Entries.keys (group pairs) = firstKeys pairs :=
  Entries.keys_tabulate _ _

theorem unique_group (pairs : List (String × Tree)) : Entries.Unique (group pairs) := by
  rw [Entries.Unique, keys_group]
  exact Entries.nodup_firstKeys pairs

theorem group_eq_nil_iff : group pairs = [] ↔ pairs = [] := by
  calc
    group pairs = [] ↔ Entries.keys (group pairs) = [] := List.map_eq_nil_iff.symm
    _ ↔ firstKeys pairs = [] := by rw [keys_group]
    _ ↔ pairs = [] := Entries.firstKeys_eq_nil_iff

/-- What one more value makes of grouped pairs. -/
theorem group_concat (pairs : List (String × Tree)) (key : String) (value : Tree) :
    group (pairs ++ [(key, value)]) =
      Entries.insert key (gather (valuesUnder key pairs ++ [value])) (group pairs) := by
  rw [group, group, Entries.insert_tabulate (Entries.nodup_firstKeys pairs),
    Entries.firstKeys_concat]
  apply Entries.tabulate_congr
  intro k _
  rw [valuesUnder_concat]
  by_cases here : k = key
  · rw [if_pos here, if_pos here, here]
  · rw [if_neg here, if_neg here]

namespace Frame

/-- Adds the values of pairs under their keys, one after the other. -/
def addAll (f : Frame) (pairs : List (String × Tree)) : Frame :=
  pairs.foldl (fun f p => f.accumulate p.1 p.2) f

/-- A frame holds what pairs group to, and knows which keys came more than once. -/
structure Groups (f : Frame) (pairs : List (String × Tree)) : Prop where
  entries : f.entries = group pairs
  repeated : ∀ key, key ∈ f.repeated ↔ 2 ≤ (valuesUnder key pairs).length

/-- A frame holds the values of pairs under their keys. -/
structure Collects (f : Frame) (pairs : List (String × Tree)) : Prop where
  mem_keys : ∀ key, key ∈ Entries.keys f.entries ↔ key ∈ pairs.map Prod.fst
  /-- Each key stands once, and in front of those that came later for the first time. -/
  in_order : (Entries.keys f.entries).Pairwise fun key key' =>
    (pairs.map Prod.fst).idxOf key < (pairs.map Prod.fst).idxOf key'
  /-- A value that came alone is held as it is, also when it is a list. -/
  once : ∀ key t, valuesUnder key pairs = [t] → Entries.find? key f.entries = some t
  several : ∀ key, 2 ≤ (valuesUnder key pairs).length →
    Entries.find? key f.entries = some (.list (valuesUnder key pairs))
  repeated : ∀ key, key ∈ f.repeated ↔ 2 ≤ (valuesUnder key pairs).length
  list_of_repeated : ∀ key ∈ f.repeated, ∃ ts, Entries.find? key f.entries = some (.list ts)

theorem groups_ofName (name : String) : (ofName name).Groups [] where
  entries := rfl
  repeated key := by simp [ofName, valuesUnder]

variable {f : Frame}

theorem Groups.find?_entries (h : f.Groups pairs) (key : String) :
    Entries.find? key f.entries =
      if valuesUnder key pairs = [] then none else some (gather (valuesUnder key pairs)) := by
  rw [h.entries, find?_group]

/-- One more value is gathered with those that came under its key. A list under a key is added to
only if the key came more than once; a single value may be a list as well. -/
theorem Groups.accumulate_eq (h : f.Groups pairs) (key : String) (value : Tree) :
    f.accumulate key value = { f with
      entries := Entries.insert key (gather (valuesUnder key pairs ++ [value])) f.entries
      repeated :=
        if (valuesUnder key pairs).length = 1 then f.repeated ++ [key] else f.repeated } := by
  have found := h.find?_entries key
  have often := h.repeated key
  match values : valuesUnder key pairs with
  | [] =>
    rw [values, if_pos rfl] at found
    have new : key ∉ f.repeated := by simp [often, values]
    simp only [accumulate, if_neg new, found]
    rfl
  | [first] =>
    rw [values, if_neg (List.cons_ne_nil _ _)] at found
    have once : key ∉ f.repeated := by simp [often, values]
    simp only [accumulate, found, if_neg once]
    rfl
  | first :: second :: rest =>
    rw [values, if_neg (List.cons_ne_nil _ _)] at found
    have twice : key ∈ f.repeated := by simp [often, values]
    simp only [accumulate, found, gather, if_pos twice]
    rfl

/-- A frame goes on to group its pairs when it is given one more value. -/
theorem Groups.accumulate (h : f.Groups pairs) (key : String) (value : Tree) :
    (f.accumulate key value).Groups (pairs ++ [(key, value)]) where
  entries := by rw [h.accumulate_eq, group_concat, h.entries]
  repeated := by
    intro k
    have often := h.repeated k
    rw [h.accumulate_eq, valuesUnder_concat]
    by_cases here : k = key
    · subst here
      rw [if_pos rfl, List.length_append, List.length_singleton]
      split
      · next one => simp [one]
      · exact often.trans (by omega)
    · rw [if_neg here, ← often]
      split
      · simp [here]
      · exact Iff.rfl

theorem Groups.addAll {seen : List (String × Tree)} (h : f.Groups seen)
    (pairs : List (String × Tree)) : (f.addAll pairs).Groups (seen ++ pairs) := by
  induction pairs generalizing f seen with
  | nil =>
    rw [List.append_nil]
    exact h
  | cons p pairs ih =>
    have next := ih (h.accumulate p.1 p.2)
    rw [List.append_assoc] at next
    exact next

/-- A frame that nothing was added to before groups the pairs that are added. -/
theorem groups_addAll (name : String) (pairs : List (String × Tree)) :
    ((ofName name).addAll pairs).Groups pairs :=
  (groups_ofName name).addAll pairs

/-- Values that are added to an empty frame are collected under their keys, whatever they are and
in whatever order the keys come. -/
theorem collects_addAll (name : String) (pairs : List (String × Tree)) :
    ((ofName name).addAll pairs).Collects pairs := by
  have grouped := groups_addAll name pairs
  constructor
  case mem_keys =>
    intro key
    rw [grouped.entries, keys_group, Entries.mem_firstKeys]
  case in_order =>
    rw [grouped.entries, keys_group]
    exact Entries.pairwise_firstKeys pairs
  case once =>
    intro key t single
    rw [grouped.entries]
    exact find?_group_of_single single
  case several =>
    intro key twice
    rw [grouped.entries]
    exact find?_group_of_several twice
  case repeated => exact grouped.repeated
  case list_of_repeated =>
    intro key member
    have twice := (grouped.repeated key).1 member
    rw [grouped.entries]
    exact ⟨_, find?_group_of_several twice⟩

/-- A list that came first is one of two values; the list of the other key came alone. -/
example : ((ofName "a").addAll [("b", .list [.text "x", .text "y"]), ("c", .list [.text "z"]),
      ("b", .text "w")]).entries =
    [("b", .list [.list [.text "x", .text "y"], .text "w"]), ("c", .list [.text "z"])] := by
  rfl

theorem addAll_append (f : Frame) (pairs later : List (String × Tree)) :
    f.addAll (pairs ++ later) = (f.addAll pairs).addAll later :=
  List.foldl_append

theorem name_accumulate (f : Frame) (key : String) (value : Tree) :
    (f.accumulate key value).name = f.name := by
  rw [accumulate]
  split <;> split <;> rfl

theorem name_addAll (f : Frame) (pairs : List (String × Tree)) :
    (f.addAll pairs).name = f.name := by
  induction pairs generalizing f with
  | nil => rfl
  | cons p pairs ih => exact (ih (f.accumulate p.1 p.2)).trans (f.name_accumulate p.1 p.2)

/-- A finished frame has the value of an element with its pairs. -/
theorem finish_addAll (name : String) (pairs : List (String × Tree)) :
    ((ofName name).addAll pairs).finish = collapse pairs := by
  rw [finish, (groups_addAll name pairs).entries, collapse, group]
  match firstKeys pairs with
  | [] => rfl
  | [key] =>
    by_cases content : key = contentKey
    · subst content
      rw [if_pos rfl]
      exact if_pos rfl
    · rw [if_neg (by simpa using content)]
      exact if_neg content
  | _ :: _ :: _ => rw [if_neg (by simp)]; rfl

end Frame

end ConfigTree.Xml
