import ConfigTree.Entries
import Mathlib.Data.List.Induction

/-!
# Tabulated entries

Entries are determined by their keys in order and by the value under each key. `firstKeys` are the
keys of some pairs in the order in which they first come (`pairwise_firstKeys`); a further pair sets
the value under its key and appends the key when it is new, which is what `insert` does to tabulated
entries (`insert_tabulate`).
-/

namespace ConfigTree.Entries

variable {α : Type}

/-- The entries with the given keys and with the values that a function gives to them. -/
def tabulate (keys : List String) (value : String → α) : Entries α :=
  keys.map fun key => (key, value key)

/-- The keys of pairs, each once, in the order in which they first come. -/
def firstKeys (pairs : List (String × α)) : List String :=
  (pairs.map Prod.fst).eraseDups

theorem tabulate_congr {keys : List String} {value value' : String → α}
    (h : ∀ key ∈ keys, value key = value' key) : tabulate keys value = tabulate keys value' := by
  apply List.map_congr_left
  intro key member
  rw [h key member]

theorem find?_tabulate (key : String) (keys : List String) (value : String → α) :
    find? key (tabulate keys value) = if key ∈ keys then some (value key) else none := by
  induction keys with
  | nil => rfl
  | cons k keys ih =>
    by_cases here : k = key
    · subst here
      simp [tabulate, find?]
    · have later : key ≠ k := Ne.symm here
      rw [tabulate] at ih
      simp [tabulate, find?, here, later, ih]

/-- Setting a key changes the value under it in place, or appends it. -/
theorem insert_tabulate {keys : List String} (unique : keys.Nodup) (key : String) (new : α)
    (value : String → α) :
    insert key new (tabulate keys value) =
      tabulate (if key ∈ keys then keys else keys ++ [key])
        fun k => if k = key then new else value k := by
  induction keys with
  | nil => simp [tabulate, insert]
  | cons k keys ih =>
    obtain ⟨first, rest⟩ := List.nodup_cons.1 unique
    by_cases here : k = key
    · subst here
      have others : tabulate keys value =
          tabulate keys fun k' => if k' = k then new else value k' := by
        apply tabulate_congr
        intro k' member
        have differs : k' ≠ k := fun same => first (same ▸ member)
        rw [if_neg differs]
      rw [if_pos List.mem_cons_self]
      show insert k new ((k, value k) :: tabulate keys value) =
        (k, if k = k then new else value k) :: _
      rw [insert, if_pos rfl, if_pos rfl, others]
      rfl
    · have later := ih rest
      have differs : key ≠ k := Ne.symm here
      show insert key new ((k, value k) :: tabulate keys value) = _
      rw [insert, if_neg here, later]
      by_cases member : key ∈ keys <;> simp [tabulate, here, differs, member]

theorem nodup_eraseDups (keys : List String) : keys.eraseDups.Nodup := by
  cases keys with
  | nil => exact List.nodup_nil
  | cons key keys =>
    rw [List.eraseDups_cons, List.nodup_cons]
    constructor
    · intro member
      simp [List.mem_eraseDups] at member
    · exact nodup_eraseDups _
termination_by keys.length
decreasing_by
  have shorter := List.length_filter_le (fun k => !k == key) keys
  rw [List.length_cons]
  omega

theorem nodup_firstKeys (pairs : List (String × α)) : (firstKeys pairs).Nodup :=
  nodup_eraseDups _

theorem mem_firstKeys {key : String} {pairs : List (String × α)} :
    key ∈ firstKeys pairs ↔ key ∈ pairs.map Prod.fst :=
  List.mem_eraseDups

theorem firstKeys_eq_nil_iff {pairs : List (String × α)} : firstKeys pairs = [] ↔ pairs = [] := by
  cases pairs with
  | nil => exact ⟨fun _ => rfl, fun _ => rfl⟩
  | cons p pairs => simp [firstKeys, List.eraseDups_cons]

theorem keys_tabulate (keys : List String) (value : String → α) :
    Entries.keys (tabulate keys value) = keys := by
  rw [Entries.keys, tabulate, List.map_map]
  exact List.map_id keys

/-- One key alone comes when there are pairs, and all of them have it. -/
theorem firstKeys_eq_singleton_iff {key : String} {pairs : List (String × α)} :
    firstKeys pairs = [key] ↔ pairs ≠ [] ∧ ∀ p ∈ pairs, p.1 = key := by
  have member {p : String × α} (h : p ∈ pairs) : p.1 ∈ firstKeys pairs :=
    mem_firstKeys.2 (List.mem_map_of_mem h)
  constructor
  · intro single
    constructor
    · rintro rfl
      cases single
    · intro p h
      have here := member h
      rw [single] at here
      exact List.mem_singleton.1 here
  · rintro ⟨some_pairs, only⟩
    have unique := nodup_firstKeys pairs
    have only (k : String) (h : k ∈ firstKeys pairs) : k = key := by
      obtain ⟨p, hp, rfl⟩ := List.mem_map.1 (mem_firstKeys.1 h)
      exact only p hp
    cases keys : firstKeys pairs with
    | nil =>
      obtain ⟨p, hp⟩ := List.exists_mem_of_ne_nil pairs some_pairs
      have here := member hp
      rw [keys] at here
      cases here
    | cons k ks =>
      rw [keys] at unique only
      obtain rfl := only k List.mem_cons_self
      cases ks with
      | nil => rfl
      | cons k' ks =>
        obtain rfl := only k' (by simp)
        simp at unique

/-- A further pair adds its key if it is new. -/
theorem firstKeys_concat (pairs : List (String × α)) (key : String) (value : α) :
    firstKeys (pairs ++ [(key, value)]) =
      if key ∈ firstKeys pairs then firstKeys pairs else firstKeys pairs ++ [key] := by
  have new : [key].removeAll (pairs.map Prod.fst) =
      if key ∈ firstKeys pairs then [] else [key] := by
    rw [List.cons_removeAll]
    by_cases member : key ∈ pairs.map Prod.fst <;> simp [mem_firstKeys, member, List.removeAll]
  rw [firstKeys, List.map_append, List.eraseDups_append, ← firstKeys, List.map_singleton, new]
  split
  · exact List.append_nil _
  · rfl

/-- Of two keys the one that comes first is the one that was met first. -/
theorem pairwise_firstKeys (pairs : List (String × α)) :
    (firstKeys pairs).Pairwise fun k k' =>
      (pairs.map Prod.fst).idxOf k < (pairs.map Prod.fst).idxOf k' := by
  induction pairs using List.reverseRecOn with
  | nil => exact List.Pairwise.nil
  | append_singleton pairs p ih =>
    obtain ⟨key, value⟩ := p
    -- a further pair leaves the keys before it where they were met
    have met {k : String} (h : k ∈ firstKeys pairs) :
        ((pairs ++ [(key, value)]).map Prod.fst).idxOf k = (pairs.map Prod.fst).idxOf k := by
      rw [List.map_append, List.idxOf_append, if_pos (mem_firstKeys.1 h)]
    have before : (firstKeys pairs).Pairwise fun k k' =>
        ((pairs ++ [(key, value)]).map Prod.fst).idxOf k <
          ((pairs ++ [(key, value)]).map Prod.fst).idxOf k' := by
      apply List.Pairwise.imp_of_mem _ ih
      intro k k' here later less
      rw [met here, met later]
      exact less
    rw [firstKeys_concat]
    split
    · exact before
    · next new =>
      apply List.pairwise_append.2 ⟨before, List.pairwise_singleton _ _, _⟩
      intro k here k' later
      obtain rfl := List.mem_singleton.1 later
      have inside := List.idxOf_lt_length_iff.2 (mem_firstKeys.1 here)
      rw [met here, List.map_append, List.idxOf_append, if_neg (mt mem_firstKeys.2 new)]
      omega

end ConfigTree.Entries
