import ConfigTree.Json.Offer
import ConfigTree.Proofs.Tree.Shape

/-!
# Trees as JSON values

A tree becomes a JSON value and comes back with null in the place of each double that is not finite
(`toTree_ofTree`), so that trees of finite doubles have different JSON values (`ofTree_inj`). Taking
in what a tree offers never fails, since its keys are texts (`ofOffer?_offer`).
-/

namespace ConfigTree

/-- Whether a scalar is a double that is infinite or not a number. -/
def Scalar.isNonFinite : Scalar → Bool
  | .number (.float x) => !x.isFinite
  | _ => false

/-- A scalar, with null for a double that is not finite. -/
def Scalar.nullNonFinite (s : Scalar) : Scalar :=
  if s.isNonFinite then .null else s

namespace Tree

mutual

/-- A tree with each of its scalars replaced. -/
def mapScalars (f : Scalar → Scalar) : Tree → Tree
  | .scalar s => .scalar (f s)
  | .list ts => .list (mapScalarsItems f ts)
  | .map es => .map (mapScalarsEntries f es)

/-- The items of a list with each of their scalars replaced. -/
def mapScalarsItems (f : Scalar → Scalar) : List Tree → List Tree
  | [] => []
  | t :: ts => mapScalars f t :: mapScalarsItems f ts

/-- The entries of a map with each scalar of their values replaced. -/
def mapScalarsEntries (f : Scalar → Scalar) : List (String × Tree) → List (String × Tree)
  | [] => []
  | (k, t) :: es => (k, mapScalars f t) :: mapScalarsEntries f es

end

/-- A tree with null in the place of each double that is not finite. -/
def nullNonFinite (t : Tree) : Tree :=
  t.mapScalars Scalar.nullNonFinite

/-- Whether a tree is no infinite double and no double that is not a number. -/
def isFinite : Tree → Bool
  | .scalar s => !s.isNonFinite
  | _ => true

section MapScalars

variable {f : Scalar → Scalar} {p : Tree → Bool}

mutual

/-- Replacing what is the same again changes nothing. -/
theorem mapScalars_eq_self (same : ∀ s, p (.scalar s) = true → f s = s) :
    (t : Tree) → t.all p = true → t.mapScalars f = t
  | .scalar s, h => congrArg Tree.scalar (same s h)
  | .list ts, h => congrArg Tree.list (mapScalarsItems_eq_self same ts (all_list.1 h).2)
  | .map es, h => congrArg Tree.map (mapScalarsEntries_eq_self same es (all_map.1 h).2)

theorem mapScalarsItems_eq_self (same : ∀ s, p (.scalar s) = true → f s = s) :
    (ts : List Tree) → allItems p ts = true → mapScalarsItems f ts = ts
  | [], _ => rfl
  | t :: ts, h => by
    obtain ⟨head, tail⟩ := allItems_cons.1 h
    rw [mapScalarsItems, mapScalars_eq_self same t head, mapScalarsItems_eq_self same ts tail]

theorem mapScalarsEntries_eq_self (same : ∀ s, p (.scalar s) = true → f s = s) :
    (es : List (String × Tree)) → allEntries p es = true → mapScalarsEntries f es = es
  | [], _ => rfl
  | (k, t) :: es, h => by
    obtain ⟨head, tail⟩ := allEntries_cons.1 h
    rw [mapScalarsEntries, mapScalars_eq_self same t head, mapScalarsEntries_eq_self same es tail]

end

end MapScalars

theorem nullNonFinite_eq_self {t : Tree} (finite : t.all isFinite = true) :
    t.nullNonFinite = t := by
  apply mapScalars_eq_self _ t finite
  intro s h
  have finite : s.isNonFinite = false := by simpa [isFinite] using h
  rw [Scalar.nullNonFinite, finite]
  rfl

end Tree

namespace Json

open Binary (Double)

theorem toTree_ofScalar (s : Scalar) : toTree (ofScalar s) = .scalar s.nullNonFinite := by
  cases s with
  | number n =>
    cases n with
    | int i =>
      show Tree.scalar (.number (Numeric.toNumber (.integer i.toInt))) = _
      rw [Numeric.toNumber, int64?_toInt]
      rfl
    | float x =>
      rw [ofScalar, ofNumber, Scalar.nullNonFinite, Scalar.isNonFinite]
      cases x.isFinite <;> rfl
  | _ => rfl

mutual

/-- As a JSON value a tree loses its doubles that are not finite, and nothing else. -/
theorem toTree_ofTree : (t : Tree) → toTree (ofTree t) = t.nullNonFinite
  | .scalar s => toTree_ofScalar s
  | .list ts => congrArg Tree.list (toItems_ofItems ts)
  | .map es => congrArg Tree.map (toEntries_ofEntries es)

theorem toItems_ofItems : (ts : List Tree) →
    toItems (ofItems ts) = Tree.mapScalarsItems Scalar.nullNonFinite ts
  | [] => rfl
  | t :: ts => congr (congrArg List.cons (toTree_ofTree t)) (toItems_ofItems ts)

theorem toEntries_ofEntries : (es : List (String × Tree)) →
    toEntries (ofEntries es) = Tree.mapScalarsEntries Scalar.nullNonFinite es
  | [] => rfl
  | (k, t) :: es =>
    congr (congrArg (fun t => List.cons (k, t)) (toTree_ofTree t)) (toEntries_ofEntries es)

end

theorem ofTree_inj {t u : Tree} (finite : t.all Tree.isFinite = true)
    (finite' : u.all Tree.isFinite = true) (h : ofTree t = ofTree u) : t = u := by
  calc t = t.nullNonFinite := (Tree.nullNonFinite_eq_self finite).symm
    _ = toTree (ofTree t) := (toTree_ofTree t).symm
    _ = toTree (ofTree u) := congrArg toTree h
    _ = u.nullNonFinite := toTree_ofTree u
    _ = u := Tree.nullNonFinite_eq_self finite'

theorem keys_ofEntries (es : List (String × Tree)) :
    Entries.keys (ofEntries es) = Entries.keys es := by
  induction es with
  | nil => rfl
  | cons e es ih => exact congrArg (e.1 :: ·) ih

theorem unique_ofEntries {es : List (String × Tree)} :
    Entries.Unique (ofEntries es) ↔ Entries.Unique es := by
  rw [Entries.Unique, Entries.Unique, keys_ofEntries]

theorem ofOffer?_scalar (s : Scalar) : ofOffer? s.offer = some (ofScalar s) := by
  cases s with
  | number n => cases n <;> rfl
  | _ => rfl

mutual

/-- What a tree offers is taken in as its JSON value. -/
theorem ofOffer?_offer : (t : Tree) → t.all Tree.hasUniqueKeys = true →
    ofOffer? t.offer = some (ofTree t)
  | .scalar s, _ => ofOffer?_scalar s
  | .list ts, unique => by
    rw [Tree.offer, ofOffer?, ofOffers?_offerItems ts (Tree.all_list.1 unique).2]
    rfl
  | .map es, unique => by
    obtain ⟨keys, values⟩ := Tree.all_map.1 unique
    have keys : Entries.Unique ([] ++ ofEntries es) := unique_ofEntries.2 (of_decide_eq_true keys)
    rw [Tree.offer, ofOffer?, addOffers?_offerEntries [] es values keys]
    rfl

theorem ofOffers?_offerItems : (ts : List Tree) →
    Tree.allItems Tree.hasUniqueKeys ts = true → ofOffers? (Tree.offerItems ts) = some (ofItems ts)
  | [], _ => rfl
  | t :: ts, unique => by
    obtain ⟨head, tail⟩ := Tree.allItems_cons.1 unique
    rw [Tree.offerItems, ofOffers?, ofOffer?_offer t head, ofOffers?_offerItems ts tail]
    rfl

/-- New keys come behind the members that are there. -/
theorem addOffers?_offerEntries (members : Entries Json) : (es : List (String × Tree)) →
    Tree.allEntries Tree.hasUniqueKeys es = true → Entries.Unique (members ++ ofEntries es) →
    addOffers? members (Tree.offerEntries es) = some (members ++ ofEntries es)
  | [], _, _ => congrArg some (List.append_nil members).symm
  | (k, t) :: es, unique, keys => by
    obtain ⟨head, tail⟩ := Tree.allEntries_cons.1 unique
    have placed : Entries.insert k (ofTree t) members = members ++ [(k, ofTree t)] :=
      Entries.insert_of_notMem keys.notMem_keys _
    have whole : members ++ ofEntries ((k, t) :: es) =
        (members ++ [(k, ofTree t)]) ++ ofEntries es := by
      rw [ofEntries, List.append_assoc]
      rfl
    rw [whole] at keys ⊢
    rw [Tree.offerEntries, addOffers?, keyOfOffer?, Option.bind_some, ofOffer?_offer t head,
      Option.bind_some, placed]
    exact addOffers?_offerEntries _ es tail keys

end

/-- A tree in which no map has a key twice is taken in without fail, and its JSON value stands for
the tree with null for each double that is not finite. No two trees of finite doubles have the same
JSON value. -/
theorem exchanged {t : Tree} (unique : t.all Tree.hasUniqueKeys = true) :
    ofOffer? t.offer = some (ofTree t) ∧ toTree (ofTree t) = t.nullNonFinite ∧
      ∀ u : Tree, u.all Tree.hasUniqueKeys = true → t.all Tree.isFinite = true →
        u.all Tree.isFinite = true → ofTree t = ofTree u → t = u :=
  ⟨ofOffer?_offer t unique, toTree_ofTree t, fun _ _ finite finite' => ofTree_inj finite finite'⟩

/-- A map of a double and a list with another double, an integer and a text. -/
def mixed (x y : Double) : Tree :=
  .map [("z", .scalar (.number (.float x))),
    ("", .list [.scalar (.number (.float y)), .scalar (.number (.int 2)), .map [("a", .text "2")]])]

/-- What is no number becomes null, a double without a fraction stays a double, and the sign of a
zero tells two JSON values apart. -/
theorem exchanged_mixed :
    (mixed .nan (.ofInt 2)).all Tree.hasUniqueKeys = true ∧
      ofOffer? (mixed .nan (.ofInt 2)).offer = some (ofTree (mixed .nan (.ofInt 2))) ∧
      toTree (ofTree (mixed .nan (.ofInt 2))) =
        .map [("z", .null), ("", .list [.scalar (.number (.float (.ofInt 2))),
          .scalar (.number (.int 2)), .map [("a", .text "2")]])] ∧
      ofTree (mixed (.zero false) (.ofInt 2)) ≠ ofTree (mixed (.zero true) (.ofInt 2)) := by
  obtain ⟨taken, back, -⟩ := exchanged (t := mixed .nan (.ofInt 2)) rfl
  obtain ⟨-, -, inj⟩ := exchanged (t := mixed (.zero false) (.ofInt 2)) rfl
  refine ⟨rfl, taken, back.trans rfl, ?_⟩
  intro same
  have whole := inj (mixed (.zero true) (.ofInt 2)) rfl (by decide) (by decide) same
  have signs : Double.zero false = Double.zero true := by simpa [mixed] using whole
  exact absurd signs (by decide)

end Json

end ConfigTree
