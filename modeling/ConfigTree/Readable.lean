import ConfigTree.Tree.Display
import ConfigTree.Tree.Infer

/-!
# Readable types

The types that a node can be read as. Reading gives nothing when the node has the wrong shape.
Texts are read from every node; flags and numbers also from texts that spell them; a list is read
when all its items are. `Readable.isMap` tells which values count as maps.
-/

namespace ConfigTree

open Binary (Double Single)

/-- A type whose values can be read from trees. -/
class Readable (α : Type) where
  /-- The value that a tree stands for. -/
  read : Tree → Option α
  /-- Whether a value is a map. -/
  isMap : α → Bool

/-- The integers from `lo` to `hi`. -/
def Bounded (lo hi : Int) : Type :=
  { z : Int // lo ≤ z ∧ z ≤ hi }

namespace Bounded

variable {lo hi : Int}

instance : DecidableEq (Bounded lo hi) :=
  inferInstanceAs (DecidableEq { z : Int // lo ≤ z ∧ z ≤ hi })

/-- The integer `z`, if it is in range. -/
def ofInt? (z : Int) : Option (Bounded lo hi) :=
  if h : lo ≤ z ∧ z ≤ hi then some ⟨z, h⟩ else none

/-- The integer without its bounds. -/
def toInt (z : Bounded lo hi) : Int :=
  z.val

end Bounded

/-- The number that a tree is or spells. -/
def Tree.readNumber? : Tree → Option Number
  | .scalar (.number n) => some n
  | .scalar (.text s) => Number.ofText? (Text.trim s.toList)
  | _ => none

/-- The flag that a tree is or spells. -/
def Tree.readBool? : Tree → Option Bool
  | .scalar (.bool b) => some b
  | .scalar (.text s) => boolOfText? (Text.trim s.toList)
  | _ => none

namespace Readable

instance : Readable String where
  read t := some t.display
  isMap _ := false

instance : Readable Bool where
  read t := t.readBool?
  isMap _ := false

instance {lo hi : Int} : Readable (Bounded lo hi) where
  read t := (t.readNumber?.bind Number.toInt?).bind Bounded.ofInt?
  isMap _ := false

instance : Readable Double where
  read t := t.readNumber?.map Number.toDouble
  isMap _ := false

instance : Readable Single where
  read t := t.readNumber?.map fun n => n.toDouble.toSingle
  isMap _ := false

instance : Readable Tree where
  read t := some t
  isMap t := t.isMap

instance : Readable (Entries Tree) where
  read t := t.entries?
  isMap _ := true

instance instList {α : Type} [Readable α] : Readable (List α) where
  read t := t.items?.bind fun ts => ts.mapM read
  isMap _ := false

instance instOption {α : Type} [Readable α] : Readable (Option α) where
  read t := (read t).map some
  isMap
    | some a => isMap a
    | none => false

end Readable

end ConfigTree
