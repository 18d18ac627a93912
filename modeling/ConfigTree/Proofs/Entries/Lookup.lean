import ConfigTree.Proofs.Entries.Tabulate
import Mathlib.Data.List.Induction

/-!
# Looking up in entries

Where keys are unique, what is found under a key is the value of its entry (`Unique.find?_eq`).
Pairs that are inserted one after the other leave each of their keys where it first came, and under
it the value that came last (`keys_ofPairs`, `find?_ofPairs`), and they leave nothing that was not
inserted (`mem_of_mem_ofPairs`).
-/

namespace ConfigTree.Entries

variable {α : Type} {key : String} {v : α} {es : Entries α}

theorem mem_of_find? (h : find? key es = some v) : (key, v) ∈ es := by
  induction es with
  | nil => cases h
  | cons e es ih =>
    obtain ⟨k, u⟩ := e
    rw [find?] at h
    split at h
    · next same =>
      obtain rfl := Option.some.inj h
      rw [same]
      exact List.mem_cons_self
    · exact List.mem_cons_of_mem _ (ih h)

theorem mem_keys_of_mem (h : (key, v) ∈ es) : key ∈ keys es :=
  List.mem_map_of_mem h

/-- A key that is there has a value. -/
theorem exists_find?_of_mem_keys (h : key ∈ keys es) : ∃ v, find? key es = some v := by
  induction es with
  | nil => cases h
  | cons e es ih =>
    obtain ⟨k, u⟩ := e
    rw [find?]
    by_cases same : k = key
    · exact ⟨u, if_pos same⟩
    · rw [if_neg same]
      apply ih
      exact (List.mem_cons.1 h).resolve_left (Ne.symm same)

/-- Under a key that comes once stands the value of its entry. -/
theorem Unique.find?_eq (unique : Unique es) (h : (key, v) ∈ es) : find? key es = some v := by
  induction es with
  | nil => cases h
  | cons e es ih =>
    obtain ⟨k, u⟩ := e
    obtain ⟨new, rest⟩ := List.nodup_cons.1 unique
    rw [find?]
    rcases List.mem_cons.1 h with here | later
    · obtain ⟨rfl, rfl⟩ := Prod.mk.inj here
      exact if_pos rfl
    · have differs : k ≠ key := by
        rintro rfl
        exact new (mem_keys_of_mem later)
      rw [if_neg differs]
      exact ih rest later

theorem keys_insert (key : String) (v : α) (es : Entries α) :
    keys (insert key v es) = if key ∈ keys es then keys es else keys es ++ [key] := by
  induction es with
  | nil => rfl
  | cons e es ih =>
    obtain ⟨k, u⟩ := e
    rw [insert]
    by_cases same : k = key
    · subst same
      have here : k ∈ keys ((k, u) :: es) := List.mem_cons_self
      rw [if_pos rfl, if_pos here]
      rfl
    · have later : key ∈ keys ((k, u) :: es) ↔ key ∈ keys es := by
        simp [keys, Ne.symm same]
      rw [if_neg same]
      show k :: keys (insert key v es) = _
      rw [ih]
      simp only [later]
      split <;> rfl

theorem ofPairs_concat (pairs : List (String × α)) (p : String × α) :
    ofPairs (pairs ++ [p]) = insert p.1 p.2 (ofPairs pairs) := by
  rw [ofPairs, List.foldl_append]
  rfl

/-- Inserted pairs keep their keys in the order in which they first came. -/
theorem keys_ofPairs (pairs : List (String × α)) : keys (ofPairs pairs) = firstKeys pairs := by
  induction pairs using List.reverseRecOn with
  | nil => rfl
  | append_singleton pairs p ih =>
    rw [ofPairs_concat, keys_insert, ih]
    exact (firstKeys_concat pairs p.1 p.2).symm

/-- Of several values under one key the last one stays. -/
theorem find?_ofPairs (key : String) (pairs : List (String × α)) :
    find? key (ofPairs pairs) = find? key pairs.reverse := by
  induction pairs using List.reverseRecOn with
  | nil => rfl
  | append_singleton pairs p ih =>
    rw [ofPairs_concat, find?_insert, ih, List.reverse_concat, find?]
    simp only [eq_comm]

/-- Behind an insertion stand the inserted entry and entries that were there. -/
theorem Unique.mem_insert {e : String × α} (unique : Unique es) (h : e ∈ Entries.insert key v es) :
    e = (key, v) ∨ e ∈ es := by
  have found : find? e.1 (Entries.insert key v es) = some e.2 := unique.insert.find?_eq h
  rw [find?_insert] at found
  split at found
  · next same => exact .inl (Prod.ext same (Option.some.inj found).symm)
  · exact .inr (mem_of_find? found)

theorem mem_of_mem_ofPairs {pairs : List (String × α)} {e : String × α} (h : e ∈ ofPairs pairs) :
    e ∈ pairs := by
  have found : find? e.1 (ofPairs pairs) = some e.2 := (unique_ofPairs pairs).find?_eq h
  rw [find?_ofPairs] at found
  exact List.mem_reverse.1 (mem_of_find? found)

end ConfigTree.Entries
