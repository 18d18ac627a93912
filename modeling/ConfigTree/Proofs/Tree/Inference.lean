import ConfigTree.Path.Walk
import ConfigTree.Presence
import ConfigTree.Proofs.Decimal.Spelling

/-!
# Inferred scalars

A format without typed scalars either keeps a text or infers the scalar that it stands for. To those
who read flags and numbers there is no difference (`infer_reads_alike`): what is inferred is what
they would have read (`Tree.readNumber?_of_infers`, `Tree.readBool?_of_infers`), and where a text is
taken for a null they could not have read it.
-/

namespace ConfigTree

open Binary (Double Single)
open Decimal (Numeral)
open ConfigTree.Path (child?)

/-- Where the scalar comes from that is inferred from a text. -/
inductive Infers (raw : String) : Scalar → Prop where
  | flag {b : Bool} (spelled : boolOfText? raw.toList = some b) : Infers raw (.bool b)
  | null (no_flag : boolOfText? raw.toList = none)
      (spelled : Text.sameLetters raw.toList ['n', 'u', 'l', 'l'] = true) : Infers raw .null
  | number {n : Number} (no_flag : boolOfText? raw.toList = none)
      (plain : Numeral.isPlain raw.toList = true)
      (spelled : Number.ofText? raw.toList = some n) : Infers raw (.number n)
  | text : Infers raw (.text raw)

theorem infers (raw : String) : Infers raw (.infer raw) := by
  simp only [Scalar.infer]
  split
  · next flag => exact .flag flag
  · next no_flag =>
    split
    · next null => exact .null no_flag null
    · split
      · next plain =>
        split
        · next number => exact .number no_flag plain number
        · exact .text
      · exact .text

theorem isWord_of_boolOfText? {cs : List Char} {b : Bool} (h : boolOfText? cs = some b) :
    Text.IsWord cs := by
  unfold boolOfText? at h
  split at h
  · next same => exact Text.isWord_of_sameLetters same (Text.isWord_of_all rfl rfl)
  · split at h
    · next same => exact Text.isWord_of_sameLetters same (Text.isWord_of_all rfl rfl)
    · cases h

/-- No number is spelled with letters alone. -/
theorem Number.ofText?_of_isWord {cs : List Char} (h : Text.IsWord cs) :
    Number.ofText? cs = none := by
  obtain ⟨c, rest, rfl⟩ := List.exists_cons_of_ne_nil h.ne_nil
  have letter := h.letters c List.mem_cons_self
  rw [ofText?, Decimal.integer?_of_isAlpha letter, Numeral.read?_of_isAlpha letter]
  rfl

namespace Tree

theorem readNumber?_of_infers {raw : String} {s : Scalar} (h : Infers raw s) :
    (Tree.scalar s).readNumber? = (Tree.text raw).readNumber? := by
  have kept : (Tree.text raw).readNumber? = Number.ofText? (Text.trim raw.toList) := rfl
  cases h with
  | flag spelled =>
    have word := isWord_of_boolOfText? spelled
    rw [kept, word.trim_eq, Number.ofText?_of_isWord word]
    rfl
  | null no_flag spelled =>
    have word := Text.isWord_of_sameLetters spelled (Text.isWord_of_all rfl rfl)
    rw [kept, word.trim_eq, Number.ofText?_of_isWord word]
    rfl
  | number no_flag plain spelled =>
    rw [kept, Numeral.trim_of_isPlain plain, spelled]
    rfl
  | text => rfl

theorem readBool?_of_infers {raw : String} {s : Scalar} (h : Infers raw s) :
    (Tree.scalar s).readBool? = (Tree.text raw).readBool? := by
  have kept : (Tree.text raw).readBool? = boolOfText? (Text.trim raw.toList) := rfl
  cases h with
  | flag spelled =>
    rw [kept, (isWord_of_boolOfText? spelled).trim_eq, spelled]
    rfl
  | null no_flag spelled =>
    have word := Text.isWord_of_sameLetters spelled (Text.isWord_of_all rfl rfl)
    rw [kept, word.trim_eq, no_flag]
    rfl
  | number no_flag plain spelled =>
    rw [kept, Numeral.trim_of_isPlain plain, no_flag]
    rfl
  | text => rfl

end Tree

theorem isPresent_scalar (format : Format) (wantsMap : Bool) (s : Scalar) :
    isPresent format wantsMap (.scalar s) = !(Tree.scalar s).isNull := by
  simp [isPresent, Tree.isMap, Tree.entries?, Tree.isEmptyCollection]

/-- What is resolved of a scalar by a type that reads nothing in a null: a null is as good as
nothing, and no other scalar is hidden. -/
theorem resolve_child?_scalar {α : Type} [Readable α]
    (unread : (Readable.read .null : Option α) = none) (format : Format) {key : String}
    {es : Entries Tree} {s : Scalar} (found : Entries.find? key es = some (.scalar s))
    (default : α) :
    resolve format (child? key (.map es)) default = (Readable.read (.scalar s)).getD default := by
  rw [child?, found, Option.filter_some, resolve]
  cases null : (Tree.scalar s).isNull with
  | true =>
    obtain rfl : s = .null := by
      cases s with
      | null => rfl
      | bool | number | text => cases null
    rw [unread]
    rfl
  | false =>
    have here : present? format (Readable.isMap default) (some (.scalar s)) = some (.scalar s) := by
      rw [present?, Option.filter_some, isPresent_scalar, null]
      rfl
    rw [Bool.not_false, if_pos rfl, here]

/-- A type to which a text is the same whether it is kept or the scalar that it stands for is
inferred. -/
structure ReadsAlike (α : Type) [Readable α] (raw : String) : Prop where
  read : (Readable.read (.scalar (.infer raw)) : Option α) = Readable.read (.text raw)
  /-- Under keys of maps the two are found, or give way to a default, in the same way, whatever
  the formats are. -/
  resolved : ∀ (format format' : Format) (key key' : String) (es es' : Entries Tree),
    Entries.find? key es = some (.scalar (.infer raw)) →
    Entries.find? key' es' = some (.text raw) →
    (∀ default : α, resolve format (child? key (.map es)) default =
      resolve format' (child? key' (.map es')) default) ∧
    resolve format (child? key (.map es)) (none : Option α) =
      resolve format' (child? key' (.map es')) (none : Option α)

theorem read_option {α : Type} [Readable α] (t : Tree) :
    (Readable.read t : Option (Option α)) = (Readable.read t : Option α).map some := rfl

/-- It is enough that the two read alike and that nothing is read in a null. -/
theorem readsAlike {α : Type} [Readable α] {raw : String}
    (unread : (Readable.read .null : Option α) = none)
    (read : (Readable.read (.scalar (.infer raw)) : Option α) = Readable.read (.text raw)) :
    ReadsAlike α raw := by
  have unread_option : (Readable.read .null : Option (Option α)) = none := by
    rw [read_option, unread, Option.map_none]
  constructor
  case read => exact read
  case resolved =>
    intro format format' key key' es es' inferred kept
    constructor
    · intro default
      rw [resolve_child?_scalar unread format inferred, resolve_child?_scalar unread format' kept,
        read]
    · rw [resolve_child?_scalar unread_option format inferred,
        resolve_child?_scalar unread_option format' kept, read_option, read_option, read]

/-- Flags, integers of every range, doubles and singles are the same in a text that is kept and in
the scalar that is inferred from it. -/
theorem infer_reads_alike (raw : String) :
    ReadsAlike Bool raw ∧ (∀ lo hi : Int, ReadsAlike (Bounded lo hi) raw) ∧
      ReadsAlike Double raw ∧ ReadsAlike Single raw := by
  have number := Tree.readNumber?_of_infers (infers raw)
  have flag := Tree.readBool?_of_infers (infers raw)
  refine ⟨readsAlike rfl flag, ?_, ?_, ?_⟩
  · intro lo hi
    apply readsAlike rfl
    show ((Tree.scalar (.infer raw)).readNumber?.bind Number.toInt?).bind Bounded.ofInt? = _
    rw [number]
    rfl
  · apply readsAlike rfl
    show (Tree.scalar (.infer raw)).readNumber?.map Number.toDouble = _
    rw [number]
    rfl
  · apply readsAlike rfl
    show ((Tree.scalar (.infer raw)).readNumber?.map fun n => n.toDouble.toSingle) = _
    rw [number]
    rfl

end ConfigTree
