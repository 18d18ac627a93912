import ConfigTree.Binary.Double
import ConfigTree.Entries

/-!
# Trees

The shape that every document is read into: maps with their keys in order, lists and scalars.
A number is either a 64-bit integer or a double, and the two never meet: `2` and `2.0` are
different numbers.
-/

namespace ConfigTree

open Binary (Double)

/-- A number of a document. -/
inductive Number where
  | int (value : Int64)
  | float (value : Double)
  deriving DecidableEq, Repr

/-- A value without parts. -/
inductive Scalar where
  | null
  | bool (value : Bool)
  | number (value : Number)
  | text (value : String)
  deriving DecidableEq, Repr

/-- A document that has been read. -/
inductive Tree where
  | scalar (value : Scalar)
  | list (items : List Tree)
  | map (entries : List (String × Tree))

/-- The integer `z` as a 64-bit integer, if it is in range. -/
def int64? (z : Int) : Option Int64 :=
  if -0x8000000000000000 ≤ z ∧ z ≤ 0x7FFFFFFFFFFFFFFF then some (.ofInt z) else none

theorem toInt_mem_range (i : Int64) :
    -0x8000000000000000 ≤ i.toInt ∧ i.toInt ≤ 0x7FFFFFFFFFFFFFFF := by
  have low := i.le_toInt
  have high := i.toInt_lt
  omega

/-- A 64-bit integer is in range. -/
theorem int64?_toInt (i : Int64) : int64? i.toInt = some i := by
  rw [int64?, if_pos (toInt_mem_range i), Int64.ofInt_toInt]

theorem int64?_eq_some_iff {z : Int} {i : Int64} : int64? z = some i ↔ i.toInt = z := by
  constructor
  · intro h
    rw [int64?] at h
    split at h
    · next range =>
      obtain rfl := Option.some.inj h
      exact Int64.toInt_ofInt_of_le range.1 (Int.lt_of_le_of_lt range.2 (by decide))
    · cases h
  · rintro rfl
    exact int64?_toInt i

namespace Number

/-- The double nearest to a number. -/
def toDouble : Number → Double
  | .int i => .ofInt i.toInt
  | .float x => x

/-- The integer that a number equals exactly, if it is in the range of 64-bit integers. -/
def toInt? : Number → Option Int
  | .int i => some i.toInt
  | .float x => x.toInt?.filter fun z => -0x8000000000000000 ≤ z && z ≤ 0x7FFFFFFFFFFFFFFF

/-- Numeric equality of numbers of one kind. -/
def same : Number → Number → Bool
  | .int i, .int j => i == j
  | .float x, .float y => x.same y
  | _, _ => false

end Number

namespace Scalar

/-- Equality of scalars of one kind. -/
def same : Scalar → Scalar → Bool
  | .null, .null => true
  | .bool a, .bool b => a == b
  | .number a, .number b => a.same b
  | .text a, .text b => a == b
  | _, _ => false

/-- The name of the kind of a scalar. -/
def kind : Scalar → String
  | .null => "null"
  | .bool _ => "boolean"
  | .number _ => "number"
  | .text _ => "string"

end Scalar

namespace Tree

/-- The tree of nothing. -/
@[match_pattern] abbrev null : Tree := .scalar .null

/-- A tree that is a text. -/
@[match_pattern] abbrev text (s : String) : Tree := .scalar (.text s)

instance : Inhabited Tree := ⟨null⟩

/-- The name of the kind of a tree. -/
def kind : Tree → String
  | .scalar s => s.kind
  | .list _ => "list"
  | .map _ => "map"

/-- Whether a tree is null. -/
def isNull : Tree → Bool
  | null => true
  | _ => false

/-- The entries of a map. -/
def entries? : Tree → Option (Entries Tree)
  | .map es => some es
  | _ => none

/-- The items of a list. -/
def items? : Tree → Option (List Tree)
  | .list ts => some ts
  | _ => none

/-- The scalar that a tree is. -/
def scalar? : Tree → Option Scalar
  | .scalar s => some s
  | _ => none

/-- The text that a tree is. -/
def text? : Tree → Option String
  | text s => some s
  | _ => none

/-- The number that a tree is. -/
def number? : Tree → Option Number
  | .scalar (.number n) => some n
  | _ => none

/-- Whether a tree is a map. -/
def isMap (t : Tree) : Bool :=
  t.entries?.isSome

/-- An empty map or list; no scalar is one, not even the empty text. -/
def isEmptyCollection : Tree → Bool
  | .list ts => ts.isEmpty
  | .map es => es.isEmpty
  | .scalar _ => false

/-- The keys of a map in order; nothing else has keys. -/
def keys : Tree → List String
  | .map es => Entries.keys es
  | _ => []

end Tree

end ConfigTree
