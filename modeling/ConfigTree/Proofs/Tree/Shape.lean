import ConfigTree.Proofs.Entries.Lookup
import ConfigTree.Tree.Basic

/-!
# The shape of a tree

What holds of every part of a tree, and how deep its collections are nested.
-/

namespace ConfigTree

instance {α : Type} (es : Entries α) : Decidable es.Unique :=
  inferInstanceAs (Decidable (List.Nodup _))

namespace Tree

mutual

/-- Whether a tree and each of its parts pass a test. -/
def all (p : Tree → Bool) : Tree → Bool
  | .scalar s => p (.scalar s)
  | .list ts => p (.list ts) && allItems p ts
  | .map es => p (.map es) && allEntries p es

/-- Whether each item and each of its parts pass a test. -/
def allItems (p : Tree → Bool) : List Tree → Bool
  | [] => true
  | t :: ts => all p t && allItems p ts

/-- Whether each value of a map and each of its parts pass a test. -/
def allEntries (p : Tree → Bool) : List (String × Tree) → Bool
  | [] => true
  | (_, t) :: es => all p t && allEntries p es

end

mutual

/-- How many collections are nested in each other. -/
def depth : Tree → Nat
  | .scalar _ => 0
  | .list ts => depthItems ts + 1
  | .map es => depthEntries es + 1

/-- The depth of the deepest item. -/
def depthItems : List Tree → Nat
  | [] => 0
  | t :: ts => max (depth t) (depthItems ts)

/-- The depth of the deepest value of a map. -/
def depthEntries : List (String × Tree) → Nat
  | [] => 0
  | (_, t) :: es => max (depth t) (depthEntries es)

end

/-- Whether each part of a tree passes a test; the tree itself need not. -/
def allBelow (p : Tree → Bool) : Tree → Bool
  | .scalar _ => true
  | .list ts => allItems p ts
  | .map es => allEntries p es

/-- Whether a tree, if it is a map, has each of its keys once. -/
def hasUniqueKeys : Tree → Bool
  | .map es => decide (Entries.Unique es)
  | _ => true

/-- Whether a tree is a double. -/
def isFloat : Tree → Bool
  | .scalar (.number (.float _)) => true
  | _ => false

variable {p : Tree → Bool}

theorem all_list {ts : List Tree} :
    (Tree.list ts).all p = true ↔ p (.list ts) = true ∧ allItems p ts = true := by
  rw [all, Bool.and_eq_true]

theorem all_map {es : List (String × Tree)} :
    (Tree.map es).all p = true ↔ p (.map es) = true ∧ allEntries p es = true := by
  rw [all, Bool.and_eq_true]

theorem allItems_cons {t : Tree} {ts : List Tree} :
    allItems p (t :: ts) = true ↔ t.all p = true ∧ allItems p ts = true := by
  rw [allItems, Bool.and_eq_true]

theorem allEntries_cons {k : String} {t : Tree} {es : List (String × Tree)} :
    allEntries p ((k, t) :: es) = true ↔ t.all p = true ∧ allEntries p es = true := by
  rw [allEntries, Bool.and_eq_true]

theorem all_iff {t : Tree} : t.all p = true ↔ p t = true ∧ t.allBelow p = true := by
  cases t with
  | scalar s => simp [all, allBelow]
  | list ts => exact all_list
  | map es => exact all_map

theorem allItems_iff {ts : List Tree} : allItems p ts = true ↔ ∀ t ∈ ts, t.all p = true := by
  induction ts with
  | nil => simp [allItems]
  | cons t ts ih => rw [allItems_cons, ih, List.forall_mem_cons]

theorem allEntries_iff {es : List (String × Tree)} :
    allEntries p es = true ↔ ∀ e ∈ es, e.2.all p = true := by
  induction es with
  | nil => simp [allEntries]
  | cons e es ih => rw [allEntries_cons, ih, List.forall_mem_cons]

theorem all_of_mem_items {t : Tree} {ts : List Tree} (h : allItems p ts = true) (member : t ∈ ts) :
    t.all p = true :=
  allItems_iff.1 h t member

theorem all_of_find? {key : String} {t : Tree} {es : List (String × Tree)}
    (h : allEntries p es = true) (found : Entries.find? key es = some t) : t.all p = true :=
  allEntries_iff.1 h (key, t) (Entries.mem_of_find? found)

/-- A map that is left of inserted pairs has unique keys, if their values have. -/
theorem hasUniqueKeys_ofPairs {pairs : List (String × Tree)}
    (values : ∀ e ∈ pairs, e.2.all hasUniqueKeys = true) :
    (Tree.map (Entries.ofPairs pairs)).all hasUniqueKeys = true := by
  refine all_map.2 ⟨decide_eq_true (Entries.unique_ofPairs pairs), allEntries_iff.2 ?_⟩
  intro e member
  exact values e (Entries.mem_of_mem_ofPairs member)

/-- What holds of a tree when it holds of its items or values holds of every tree. -/
@[elab_as_elim]
theorem induction {motive : Tree → Prop} (scalar : ∀ s, motive (.scalar s))
    (list : ∀ ts, (∀ t ∈ ts, motive t) → motive (.list ts))
    (map : ∀ es : Entries Tree, (∀ e ∈ es, motive e.2) → motive (.map es)) : ∀ t, motive t
  | .scalar s => scalar s
  | .list ts => list ts fun t _ => induction scalar list map t
  | .map es => map es fun e _ => induction scalar list map e.2
decreasing_by
  · decreasing_tactic
  · next member =>
    have whole := List.sizeOf_lt_of_mem member
    obtain ⟨k, t⟩ := e
    simp only [Tree.map.sizeOf_spec, Prod.mk.sizeOf_spec] at whole ⊢
    omega

theorem all_mono {q : Tree → Bool} (implies : ∀ t, p t = true → q t = true) (t : Tree) :
    t.all p = true → t.all q = true := by
  induction t using Tree.induction with
  | scalar s => exact implies (.scalar s)
  | list ts ih =>
    rw [all_list, all_list, allItems_iff, allItems_iff]
    rintro ⟨here, items⟩
    exact ⟨implies _ here, fun t member => ih t member (items t member)⟩
  | map es ih =>
    rw [all_map, all_map, allEntries_iff, allEntries_iff]
    rintro ⟨here, values⟩
    exact ⟨implies _ here, fun e member => ih e member (values e member)⟩

theorem allBelow_mono {q : Tree → Bool} (implies : ∀ t, p t = true → q t = true) {t : Tree}
    (h : t.allBelow p = true) : t.allBelow q = true := by
  cases t with
  | scalar s => rfl
  | list ts => exact allItems_iff.2 fun t member => all_mono implies t (allItems_iff.1 h t member)
  | map es => exact allEntries_iff.2 fun e member => all_mono implies e.2 (allEntries_iff.1 h e member)

end Tree

end ConfigTree
