import ConfigTree.Proofs.Config.Accessors
import ConfigTree.Proofs.Path.Append
import ConfigTree.Proofs.Path.Indices
import ConfigTree.Proofs.Tree.Inference

/-!
# Items of lists

A list is read at once when all its items are, and each item has a path of its own. Flags and
numbers are read from scalars only, and not from a null (`ReadsScalars`), so that none of their
nodes is hidden from the one way and seen on the other (`present?_bind_read`): what is read at once
is what is read item by item, and if nothing is read at once, then some item is not read either
(`lists_read_by_item`).
-/

namespace ConfigTree

open Binary (Double Single)

namespace Path

/-- The path of an item of the list at a path. -/
def itemPath (path : String) (i : Nat) : String :=
  .ofList (Text.trim path.toList ++ separator :: Decimal.digits i)

variable {path : String} {tokens : List Token} {format : Format}

theorem trim_digits (i : Nat) : Text.trim (Decimal.digits i) = Decimal.digits i :=
  Text.trim_of_forall fun _ => isBlank_of_mem_digits

theorem append_digits (path : String) (i : Nat) :
    append path (.ofList (Decimal.digits i)) = itemPath path i := by
  rw [append, itemPath, String.toList_ofList, trim_digits]

/-- An item has the tokens of its list, and one of digits. -/
theorem tokenize_itemPath (closed : (Text.trim path.toList).getLast? ≠ some escape)
    (read : tokenize path [] = .ok tokens) (i : Nat) :
    tokenize (itemPath path i) [] = .ok (tokens ++ [.ofSegment (Decimal.digits i)]) := by
  have whole : split (Decimal.digits i) = [Decimal.digits i] :=
    splitAfter_solid (DigitWord.isSolidAfter_digits (fun _ => Decimal.isDigit_of_mem_digits) false)
  rw [tokenize_nil] at read ⊢
  rw [← append_digits, split_append closed, List.map_append, Except.ok.inj read,
    String.toList_ofList, trim_digits, whole]
  rfl

/-- Outside of XML a walk to an item leads to its list first. -/
theorem walk_itemPath (plain : format ≠ .xml) (root : Tree) (tokens : List Token) (i : Nat) :
    walk format root (tokens ++ [.ofSegment (Decimal.digits i)]) =
      (walk format root tokens).bind (item? i) := by
  rw [walk_append plain]
  congr 1
  funext t
  rw [walk, step_ofSegment_digits]
  exact Option.bind_fun_some _

end Path

section

variable {α β : Type} {f : α → Option β} {as : List α}

/-- A list that is mapped as a whole is mapped item by item. -/
theorem getElem?_of_mapM {bs : List β} (h : as.mapM f = some bs) (i : Nat) :
    bs[i]? = as[i]?.bind f := by
  induction as generalizing bs i with
  | nil =>
    obtain rfl := Option.some.inj h
    rfl
  | cons a as ih =>
    rw [List.mapM_cons] at h
    obtain ⟨b, first, h⟩ := Option.bind_eq_some_iff.1 h
    obtain ⟨bs, rest, h⟩ := Option.bind_eq_some_iff.1 h
    obtain rfl := Option.some.inj h
    cases i with
    | zero => exact first.symm
    | succ i => exact ih rest i

/-- A list that is not mapped has an item that is not. -/
theorem exists_getElem?_of_mapM (h : as.mapM f = none) :
    ∃ i < as.length, as[i]?.bind f = none := by
  induction as with
  | nil => cases h
  | cons a as ih =>
    cases first : f a with
    | none => exact ⟨0, Nat.zero_lt_succ _, first⟩
    | some b =>
      have rest : as.mapM f = none := by
        cases tail : as.mapM f with
        | none => rfl
        | some bs =>
          rw [List.mapM_cons, first, tail] at h
          cases h
      obtain ⟨i, inside, unmapped⟩ := ih rest
      exact ⟨i + 1, Nat.succ_lt_succ inside, unmapped⟩

end

/-- A type whose values are read from scalars, and never from a null. -/
def ReadsScalars (α : Type) [Readable α] : Prop :=
  ∀ {t : Tree} {a : α}, Readable.read t = some a → ∃ s : Scalar, t = .scalar s ∧ s ≠ .null

section

variable {α : Type} [Readable α]

theorem readsScalars_bool : ReadsScalars Bool := by
  intro t b read
  cases t with
  | scalar s => exact ⟨s, rfl, by rintro rfl; cases read⟩
  | list | map => cases read

theorem readsScalars_of_readNumber? {f : Number → Option α}
    (spec : ∀ t : Tree, Readable.read t = t.readNumber?.bind f) : ReadsScalars α := by
  intro t a read
  rw [spec] at read
  cases t with
  | scalar s => exact ⟨s, rfl, by rintro rfl; cases read⟩
  | list | map => cases read

/-- Nothing that is read from scalars is hidden. -/
theorem present?_bind_read (scalars : ReadsScalars α) (format : Format) (wantsMap : Bool)
    (found : Option Tree) :
    (present? format wantsMap found).bind Readable.read =
      found.bind (Readable.read : Tree → Option α) := by
  cases found with
  | none => rfl
  | some t =>
    rw [present?, Option.filter_some, Option.bind_some]
    cases present : isPresent format wantsMap t with
    | true => rfl
    | false =>
      rw [if_neg Bool.false_ne_true]
      symm
      show Readable.read t = none
      rw [Option.eq_none_iff_forall_ne_some]
      intro a read
      obtain ⟨s, rfl, not_null⟩ := scalars read
      rw [isPresent_scalar] at present
      cases s with
      | null => exact not_null rfl
      | bool | number | text => cases present

end

/-- How a list at a path and its items are read as values of a type. -/
structure ListReadByItem (α : Type) [Readable α] (fs : FileSystem) (c : Config) (path : String) :
    Prop where
  /-- What is read of the list is read of its items, and nothing behind its end. -/
  items : ∀ vs : List α, (c.ask fs (.get (List α) path [])).1 = .ok (some vs) →
    ∀ i, (c.ask fs (.get α (Path.itemPath path i) [])).1 = .ok vs[i]?
  /-- If nothing is read of the list, then nothing is read of one of its items. -/
  unread : ∀ ts : List Tree, (c.ask fs (.find path [])).1 = .ok (some (.list ts)) → ts ≠ [] →
    (c.ask fs (.get (List α) path [])).1 = .ok none →
    ∃ i < ts.length, (c.ask fs (.get α (Path.itemPath path i) [])).1 = .ok none

variable {c : Config} {root : Tree} {path : String}

theorem listReadByItem {α : Type} [Readable α] (scalars : ReadsScalars α)
    (loaded : c.cached = some root) (plain : c.format ≠ .xml)
    (closed : (Text.trim path.toList).getLast? ≠ some Path.escape) (fs : FileSystem) :
    ListReadByItem α fs c path := by
  obtain ⟨tokens, valid⟩ : ∃ tokens, Path.tokenize path [] = .ok tokens :=
    ⟨_, Path.tokenize_nil path⟩
  have found : (c.ask fs (.find path [])).1 = _ :=
    Config.answer_of_cached (q := .find path []) loaded valid
  have whole : (c.ask fs (.get (List α) path [])).1 = _ :=
    Config.answer_of_cached (q := .get (List α) path []) loaded valid
  have item (i : Nat) : (c.ask fs (.get α (Path.itemPath path i) [])).1 =
      .ok (((Path.walk c.format root tokens).bind (Path.item? i)).bind Readable.read) := by
    have valid := Path.tokenize_itemPath closed valid i
    rw [Config.answer_of_cached (q := .get α (Path.itemPath path i) []) loaded valid,
      Path.walk_itemPath plain, Query.answer, resolve_none, present?_bind_read scalars]
  rw [Query.answer, resolve_none] at whole
  rw [Query.answer] at found
  generalize Path.walk c.format root tokens = node at found whole item
  constructor
  case items =>
    intro vs read i
    obtain ⟨t, present, read⟩ := Option.bind_eq_some_iff.1 (Except.ok.inj (whole.symm.trans read))
    obtain ⟨here, -⟩ := Option.filter_eq_some_iff.1 present
    rw [item, here]
    cases t with
    | scalar | map => cases read
    | list ts =>
      rw [getElem?_of_mapM (f := Readable.read) read]
      rfl
  case unread =>
    intro ts list some_item unread
    obtain rfl := Except.ok.inj (found.symm.trans list)
    have present : present? c.format false (some (.list ts)) = some (.list ts) := by
      have shown : isPresent c.format true (.list ts) = true :=
        isPresent_true_iff.2 ⟨by simp, by simp, by simpa using some_item⟩
      rw [present?, Option.filter_some, isPresent_eq, shown]
      simp [Tree.isMap, Tree.entries?]
    rw [present] at whole
    have unmapped := Except.ok.inj (whole.symm.trans unread)
    obtain ⟨i, inside, unmapped⟩ := exists_getElem?_of_mapM unmapped
    refine ⟨i, inside, ?_⟩
    rw [item]
    exact congrArg Except.ok unmapped

/-- Outside of XML, lists of flags, of integers of every range, of doubles and of singles are read
item by item. -/
theorem lists_read_by_item (loaded : c.cached = some root) (plain : c.format ≠ .xml)
    (closed : (Text.trim path.toList).getLast? ≠ some Path.escape) (fs : FileSystem) :
    ListReadByItem Bool fs c path ∧ (∀ lo hi : Int, ListReadByItem (Bounded lo hi) fs c path) ∧
      ListReadByItem Double fs c path ∧ ListReadByItem Single fs c path := by
  have integers (lo hi : Int) : ReadsScalars (Bounded lo hi) := by
    apply readsScalars_of_readNumber? (f := fun n => n.toInt?.bind Bounded.ofInt?)
    intro t
    exact Option.bind_assoc ..
  have doubles : ReadsScalars Double := by
    apply readsScalars_of_readNumber? (f := some ∘ Number.toDouble)
    intro t
    exact Option.map_eq_bind
  have singles : ReadsScalars Single := by
    apply readsScalars_of_readNumber? (f := some ∘ fun n => n.toDouble.toSingle)
    intro t
    exact Option.map_eq_bind
  refine ⟨listReadByItem readsScalars_bool loaded plain closed fs, ?_,
    listReadByItem doubles loaded plain closed fs, listReadByItem singles loaded plain closed fs⟩
  intro lo hi
  exact listReadByItem (integers lo hi) loaded plain closed fs

/-- A list under an escaped key, of a number and of a text that spells one. -/
theorem lists_read_by_item_escaped :
    Path.itemPath " a\\.b " 1 = "a\\.b.1" ∧ Path.itemPath " a\\.b " 2 = "a\\.b.2" ∧
      ∃ c : Config, c = .ofTree .yaml
        (.map [("a.b", .list [.scalar (.number (.int 1)), .text " 2\n"])]) ∧
        (c.ask bareWorld (.get (Bounded 0 255) "a\\.b.1" [])).1 = .ok (some ⟨2, by decide⟩) ∧
        (c.ask bareWorld (.get (Bounded 0 255) "a\\.b.2" [])).1 = .ok none := by
  have second : Path.itemPath " a\\.b " 1 = "a\\.b.1" := by rfl
  have third : Path.itemPath " a\\.b " 2 = "a\\.b.2" := by rfl
  have closed : (Text.trim " a\\.b ".toList).getLast? ≠ some Path.escape := by decide
  obtain ⟨-, integers, -, -⟩ := lists_read_by_item
    (c := .ofTree .yaml (.map [("a.b", .list [.scalar (.number (.int 1)), .text " 2\n"])]))
    rfl nofun closed bareWorld
  have items := (integers 0 255).items [⟨1, by decide⟩, ⟨2, by decide⟩] (by rfl)
  refine ⟨second, third, _, rfl, ?_, ?_⟩
  · rw [← second]
    exact items 1
  · rw [← third]
    exact items 2

end ConfigTree
