/-!
# Entries

Values under distinct keys in the order in which the keys first came. `insert` replaces the
value of a key in place and appends a new key; `ofPairs` inserts one pair after the other, so
that of several values under one key the last stays, at the place of the first. That keys are
distinct is the predicate `Unique`, which `insert` and `ofPairs` keep.
-/

namespace ConfigTree

/-- Keyed values in order. -/
abbrev Entries (α : Type) := List (String × α)

namespace Entries

variable {α : Type}

/-- The keys in order. -/
def keys (es : Entries α) : List String :=
  es.map Prod.fst

/-- Each key occurs once. -/
def Unique (es : Entries α) : Prop :=
  (keys es).Nodup

/-- The value under a key. -/
def find? (key : String) : Entries α → Option α
  | [] => none
  | (k, v) :: es => if k = key then some v else find? key es

/-- Sets the value under a key; a new key comes last. -/
def insert (key : String) (value : α) : Entries α → Entries α
  | [] => [(key, value)]
  | (k, v) :: es => if k = key then (k, value) :: es else (k, v) :: insert key value es

/-- The entries that the pairs leave behind when they are inserted in order. -/
def ofPairs (pairs : List (String × α)) : Entries α :=
  pairs.foldl (fun es p => insert p.1 p.2 es) []

theorem mem_keys_insert {key k : String} {value : α} {es : Entries α} :
    k ∈ keys (insert key value es) ↔ k = key ∨ k ∈ keys es := by
  induction es with
  | nil => simp [insert, keys]
  | cons e es ih =>
    obtain ⟨k', v'⟩ := e
    simp only [insert]
    split
    · next h => subst h; simp [keys]
    · simp only [keys, List.map_cons, List.mem_cons] at ih ⊢
      rw [ih]
      grind

/-- A key that is new comes last. -/
theorem insert_of_notMem {key : String} {es : Entries α} (h : key ∉ keys es) (value : α) :
    insert key value es = es ++ [(key, value)] := by
  induction es with
  | nil => rfl
  | cons e es ih =>
    obtain ⟨k', v'⟩ := e
    obtain ⟨differs, later⟩ := not_or.1 (mt List.mem_cons.2 h)
    rw [insert, if_neg (Ne.symm differs), ih later]
    rfl

theorem Unique.notMem_keys {key : String} {value : α} {es later : Entries α}
    (h : Unique (es ++ (key, value) :: later)) : key ∉ keys es := by
  rw [Unique, keys, List.map_append, List.map_cons] at h
  intro member
  exact (List.nodup_append.1 h).2.2 key member key List.mem_cons_self rfl

theorem Unique.insert {key : String} {value : α} {es : Entries α} (h : Unique es) :
    Unique (insert key value es) := by
  induction es with
  | nil => simp [Entries.insert, Unique, keys]
  | cons e es ih =>
    obtain ⟨k', v'⟩ := e
    have h' := List.nodup_cons.1 h
    simp only [Entries.insert]
    split
    · exact h
    · next hne =>
      refine List.nodup_cons.2 ⟨fun hm => ?_, ih h'.2⟩
      rcases mem_keys_insert.1 hm with heq | hmem
      · exact hne heq
      · exact h'.1 hmem

theorem unique_foldl_insert {pairs : List (String × α)} {es : Entries α} (h : Unique es) :
    Unique (pairs.foldl (fun es p => insert p.1 p.2 es) es) := by
  induction pairs generalizing es with
  | nil => exact h
  | cons p pairs ih => exact ih h.insert

/-- Inserted one after the other, pairs never leave a key twice. -/
theorem unique_ofPairs (pairs : List (String × α)) : Unique (ofPairs pairs) :=
  unique_foldl_insert List.nodup_nil

/-- Setting a key changes what is found under that key and under no other. -/
theorem find?_insert (key k : String) (value : α) (es : Entries α) :
    find? k (insert key value es) = if k = key then some value else find? k es := by
  induction es with
  | nil => simp [insert, find?, eq_comm]
  | cons e es ih =>
    obtain ⟨k', v'⟩ := e
    simp only [insert]
    split
    · next h => subst h; simp only [find?]; grind
    · simp only [find?, ih]; grind

end Entries

end ConfigTree
