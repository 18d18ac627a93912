import ConfigTree.Proofs.Tree.Shape
import ConfigTree.Tree.Equality
import Mathlib.Data.List.Forall2
import Mathlib.Data.List.Perm.Subperm

/-!
# Sameness is an equivalence

Maps are compared from one side: each key of the first is looked up in the second, and besides only
the sizes are compared. Where keys are unique this is enough, since a second map of the same size
then has no other keys (`Entries.Unique.mem_keys_of_length_eq`). So sameness is symmetric; it is
transitive for all trees, and only not-a-numbers keep a tree from being the same as itself
(`same_equivalence`).
-/

namespace ConfigTree

open Binary (Double)

/-- Whether a double is one of the two zeros. -/
def Binary.Double.isZero (x : Double) : Bool :=
  match x.value with
  | .finite _ 0 _ => true
  | _ => false

theorem Binary.Double.same_iff {x y : Double} : x.same y = true ↔
    x.isNaN = false ∧ y.isNaN = false ∧ (x.isZero = true ∧ y.isZero = true ∨ x = y) := by
  unfold same isNaN isZero
  -- a zero is told from the other finite doubles by its mantissa
  rcases x.value with _ | s | ⟨s, _ | m, e⟩ <;> rcases y.value with _ | t | ⟨t, _ | n, f⟩ <;> simp

namespace Scalar

variable {a b c : Scalar}

/-- Whether a scalar is a double that is not a number. -/
def isNaN : Scalar → Bool
  | .number (.float x) => x.isNaN
  | _ => false

/-- Whether a scalar is one of the two zeros of doubles. -/
def isDoubleZero : Scalar → Bool
  | .number (.float x) => x.isZero
  | _ => false

/-- Scalars are the same when they are equal or both zeros, and numbers if they are doubles. -/
theorem same_iff : a.same b = true ↔ a.isNaN = false ∧ b.isNaN = false ∧
    (a.isDoubleZero = true ∧ b.isDoubleZero = true ∨ a = b) := by
  cases a with
  | number m =>
    cases b with
    | number n => cases m <;> cases n <;>
        simp [same, Number.same, isNaN, isDoubleZero, Binary.Double.same_iff]
    | _ => simp [same, isDoubleZero]
  | _ => cases b <;> simp [same, isNaN, isDoubleZero]

theorem same_symm (h : a.same b = true) : b.same a = true := by
  rw [same_iff] at h ⊢
  obtain ⟨number, number', zeros | rfl⟩ := h
  · exact ⟨number', number, .inl zeros.symm⟩
  · exact ⟨number', number, .inr rfl⟩

theorem same_trans (h : a.same b = true) (h' : b.same c = true) : a.same c = true := by
  rw [same_iff] at h h' ⊢
  obtain ⟨number, -, zeros | rfl⟩ := h
  · obtain ⟨-, number', zeros' | rfl⟩ := h'
    · exact ⟨number, number', .inl ⟨zeros.1, zeros'.2⟩⟩
    · exact ⟨number, number', .inl zeros⟩
  · exact h'

theorem same_self_iff : a.same a = true ↔ a.isNaN = false := by
  rw [same_iff]
  simp

end Scalar

/-- Unique keys that all occur in other entries of the same size are all the keys of those. -/
theorem Entries.Unique.mem_keys_of_length_eq {α : Type} {es fs : Entries α} {key : String}
    (unique : es.Unique) (length : es.length = fs.length) (inside : ∀ e ∈ es, e.1 ∈ keys fs)
    (h : key ∈ keys fs) : key ∈ keys es := by
  have subset : keys es ⊆ keys fs := by
    intro k member
    obtain ⟨e, entry, rfl⟩ := List.mem_map.1 member
    exact inside e entry
  have enough : (keys fs).length ≤ (keys es).length := by
    simp only [keys, List.length_map]
    omega
  exact ((List.Nodup.subperm unique subset).perm_of_length_le enough).mem_iff.2 h

namespace Tree

variable {a b c : Tree} {as bs : List Tree} {es fs : Entries Tree}

/-- Whether a tree is a double that is not a number. -/
def isNaN : Tree → Bool
  | .scalar s => s.isNaN
  | _ => false

theorem sameItems_iff : sameItems as bs = true ↔ as.length = bs.length ∧
    ∀ (i : Nat) (ha : i < as.length) (hb : i < bs.length), as[i].same bs[i] = true := by
  have pairwise : sameItems as bs = true ↔ List.Forall₂ (fun a b => a.same b = true) as bs := by
    induction as generalizing bs with
    | nil => cases bs <;> simp [sameItems]
    | cons a as ih => cases bs <;> simp [sameItems, ih]
  exact pairwise.trans List.forall₂_iff_get

theorem sameEntries_iff : sameEntries es fs = true ↔
    ∀ e ∈ es, ∃ b, Entries.find? e.1 fs = some b ∧ e.2.same b = true := by
  induction es with
  | nil => simp [sameEntries]
  | cons e es ih =>
    obtain ⟨k, a⟩ := e
    rw [sameEntries, Bool.and_eq_true, ih, List.forall_mem_cons]
    cases Entries.find? k fs <;> simp

/-- Lists are compared by position. -/
theorem same_list_iff : (Tree.list as).same (.list bs) = true ↔ as.length = bs.length ∧
    ∀ (i : Nat) (ha : i < as.length) (hb : i < bs.length), as[i].same bs[i] = true := by
  rw [same, sameItems_iff]

/-- Maps are compared by size and by looking up the keys of the first. -/
theorem same_map_iff : (Tree.map es).same (.map fs) = true ↔ es.length = fs.length ∧
    ∀ e ∈ es, ∃ b, Entries.find? e.1 fs = some b ∧ e.2.same b = true := by
  rw [same, Bool.and_eq_true, beq_iff_eq, sameEntries_iff]

theorem same_symm (unique : a.all hasUniqueKeys = true) (unique' : b.all hasUniqueKeys = true)
    (h : a.same b = true) : b.same a = true := by
  induction a using Tree.induction generalizing b with
  | scalar s =>
    cases b with
    | scalar s' => exact Scalar.same_symm h
    | list | map => cases h
  | list as ih =>
    cases b with
    | scalar | map => cases h
    | list bs =>
      have items := allItems_iff.1 (all_list.1 unique).2
      have items' := allItems_iff.1 (all_list.1 unique').2
      obtain ⟨length, same⟩ := same_list_iff.1 h
      refine same_list_iff.2 ⟨length.symm, ?_⟩
      intro i hb ha
      have here : as[i] ∈ as := List.getElem_mem ha
      exact ih _ here (items _ here) (items' _ (List.getElem_mem hb)) (same i ha hb)
  | map es ih =>
    cases b with
    | scalar | list => cases h
    | map fs =>
      obtain ⟨keys, values⟩ := all_map.1 unique
      obtain ⟨keys', values'⟩ := all_map.1 unique'
      have keys : Entries.Unique es := of_decide_eq_true keys
      have keys' : Entries.Unique fs := of_decide_eq_true keys'
      obtain ⟨length, same⟩ := same_map_iff.1 h
      have inside : ∀ e ∈ es, e.1 ∈ Entries.keys fs := by
        intro e member
        obtain ⟨b, found, -⟩ := same e member
        exact Entries.mem_keys_of_mem (Entries.mem_of_find? found)
      refine same_map_iff.2 ⟨length.symm, ?_⟩
      rintro ⟨k, b⟩ member
      -- the key has a value in the first map, which is the same as the one that is found in turn
      obtain ⟨a, found⟩ := Entries.exists_find?_of_mem_keys
        (keys.mem_keys_of_length_eq length inside (Entries.mem_keys_of_mem member))
      have entry := Entries.mem_of_find? found
      obtain ⟨b', found', same⟩ := same _ entry
      obtain rfl : b = b' := Option.some.inj ((keys'.find?_eq member).symm.trans found')
      exact ⟨a, found, ih _ entry (all_of_find? values found) (all_of_find? values' found') same⟩

theorem same_trans (h : a.same b = true) (h' : b.same c = true) : a.same c = true := by
  induction a using Tree.induction generalizing b c with
  | scalar s =>
    cases b with
    | list | map => cases h
    | scalar s' =>
      cases c with
      | scalar s'' => exact Scalar.same_trans h h'
      | list | map => cases h'
  | list as ih =>
    cases b with
    | scalar | map => cases h
    | list bs =>
      cases c with
      | scalar | map => cases h'
      | list cs =>
        obtain ⟨length, same⟩ := same_list_iff.1 h
        obtain ⟨length', same'⟩ := same_list_iff.1 h'
        refine same_list_iff.2 ⟨length.trans length', ?_⟩
        intro i ha hc
        have hb : i < bs.length := by omega
        exact ih _ (List.getElem_mem ha) (same i ha hb) (same' i hb hc)
  | map es ih =>
    cases b with
    | scalar | list => cases h
    | map fs =>
      cases c with
      | scalar | list => cases h'
      | map gs =>
        obtain ⟨length, same⟩ := same_map_iff.1 h
        obtain ⟨length', same'⟩ := same_map_iff.1 h'
        refine same_map_iff.2 ⟨length.trans length', ?_⟩
        intro e member
        obtain ⟨b, found, same⟩ := same e member
        obtain ⟨c, found', same'⟩ := same' _ (Entries.mem_of_find? found)
        exact ⟨c, found', ih e member same same'⟩

theorem same_self_iff (unique : a.all hasUniqueKeys = true) :
    a.same a = true ↔ a.all (fun t => !t.isNaN) = true := by
  induction a using Tree.induction with
  | scalar s =>
    rw [same, Scalar.same_self_iff, all, isNaN, Bool.not_eq_true']
  | list as ih =>
    have items := allItems_iff.1 (all_list.1 unique).2
    rw [same_list_iff, all_list, allItems_iff]
    constructor
    · rintro ⟨-, same⟩
      refine ⟨rfl, ?_⟩
      intro t member
      obtain ⟨i, here, rfl⟩ := List.getElem_of_mem member
      exact (ih _ member (items _ member)).1 (same i here here)
    · rintro ⟨-, numbers⟩
      refine ⟨rfl, ?_⟩
      intro i here _
      have member : as[i] ∈ as := List.getElem_mem here
      exact (ih _ member (items _ member)).2 (numbers _ member)
  | map es ih =>
    obtain ⟨keys, values⟩ := all_map.1 unique
    have keys : Entries.Unique es := of_decide_eq_true keys
    have values := allEntries_iff.1 values
    rw [same_map_iff, all_map, allEntries_iff]
    constructor
    · rintro ⟨-, same⟩
      refine ⟨rfl, ?_⟩
      intro e member
      obtain ⟨b, found, same⟩ := same e member
      obtain rfl : e.2 = b := Option.some.inj ((keys.find?_eq member).symm.trans found)
      exact (ih e member (values e member)).1 same
    · rintro ⟨-, numbers⟩
      refine ⟨rfl, ?_⟩
      intro e member
      exact ⟨e.2, keys.find?_eq member, (ih e member (values e member)).2 (numbers e member)⟩

/-- On trees in which no map has a key twice, sameness is symmetric and transitive, and a tree is the
same as itself unless it holds a double that is not a number. -/
theorem same_equivalence (unique : a.all hasUniqueKeys = true)
    (unique' : b.all hasUniqueKeys = true) :
    (a.same b = true → b.same a = true) ∧
      (a.same b = true → b.same c = true → a.same c = true) ∧
      (a.same a = true ↔ a.all (fun t => !t.isNaN) = true) :=
  ⟨same_symm unique unique', same_trans, same_self_iff unique⟩

/-- A map that holds a double, and in a list another double and a map. -/
def twoDoubles (x y : Double) : Tree :=
  .map [("x", .scalar (.number (.float x))),
    ("l", .list [.scalar (.number (.float y)), .map [("k", .null), ("m", .map [])]])]

/-- The same with the keys of both maps in another order. -/
def twoDoublesReordered (x y : Double) : Tree :=
  .map [("l", .list [.scalar (.number (.float y)), .map [("m", .map []), ("k", .null)]]),
    ("x", .scalar (.number (.float x)))]

theorem same_equivalence_zeros :
    (twoDoublesReordered (.zero false) (.zero true)).same (twoDoubles (.zero true) (.zero false)) = true ∧
      (twoDoubles (.zero true) (.zero false)).same (twoDoubles (.zero true) (.zero true)) = true ∧
      (twoDoubles (.zero true) (.zero false)).same (twoDoubles (.zero true) (.zero false)) = true := by
  obtain ⟨symm, trans, self⟩ := same_equivalence
    (a := twoDoubles (.zero true) (.zero false)) (b := twoDoublesReordered (.zero false) (.zero true))
    (c := twoDoubles (.zero true) (.zero true)) rfl rfl
  exact ⟨symm rfl, trans rfl rfl, self.2 rfl⟩

example : (twoDoubles .nan (.zero false)).same (twoDoubles .nan (.zero false)) = false := rfl

/-- Keys that differ, with as many entries, and numbers of different kinds. -/
example : (Tree.map [("a", .null)]).same (.map [("b", .null)]) = false ∧
    (Tree.scalar (.number (.int 0))).same (.scalar (.number (.float (.zero false)))) = false :=
  ⟨rfl, rfl⟩

end Tree

end ConfigTree
