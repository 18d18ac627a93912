import ConfigTree.Entries
import ConfigTree.Yaml.Token

/-!
# Nodes

A document as it is written: scalars, collections, and aliases that stand for a node under an
anchor. `Node ν` refers by references of type `ν`. In a text they are names, and one name may be
set several times; `Node.numbered?` replaces names by numbers, so that an alias need not know
where it stands.
-/

namespace ConfigTree.Yaml

/-- What a node is marked with: the anchor under which aliases find it, and its tag. -/
structure Label (ν : Type) where
  anchor : Option ν
  tag : Option Tag

/-- A part of a document, with references of type `ν`. -/
inductive Node (ν : Type) where
  | alias (target : ν)
  | scalar (label : Label ν) (text : String) (plain : Bool)
  | sequence (label : Label ν) (items : List (Node ν))
  | mapping (label : Label ν) (entries : List (Node ν × Node ν))

namespace Node

variable {ν : Type}

/-- The plain scalar without a text that stands where a node is left out. -/
def empty (label : Label ν) : Node ν :=
  .scalar label "" true

instance : Inhabited (Node ν) := ⟨empty ⟨none, none⟩⟩

mutual

/-- The number of marks that a node takes: one for a scalar or an alias, and two for the ends of
a collection. -/
def size : Node ν → Nat
  | .alias _ => 1
  | .scalar _ _ _ => 1
  | .sequence _ xs => sizeItems xs + 2
  | .mapping _ es => sizeEntries es + 2

/-- The number of marks of items. -/
def sizeItems : List (Node ν) → Nat
  | [] => 0
  | x :: xs => x.size + sizeItems xs

/-- The number of marks of entries. -/
def sizeEntries : List (Node ν × Node ν) → Nat
  | [] => 0
  | (k, v) :: es => k.size + v.size + sizeEntries es

end

/-- A node under its anchor, if it has one. -/
def underAnchor (label : Label ν) (x : Node ν) : List (ν × Node ν) :=
  match label.anchor with
  | some a => [(a, x)]
  | none => []

mutual

/-- The nodes that have anchors, in the order in which they begin. -/
def anchored : Node ν → List (ν × Node ν)
  | .alias _ => []
  | .scalar l s p => underAnchor l (.scalar l s p)
  | .sequence l xs => underAnchor l (.sequence l xs) ++ anchoredItems xs
  | .mapping l es => underAnchor l (.mapping l es) ++ anchoredEntries es

/-- The nodes of items that have anchors. -/
def anchoredItems : List (Node ν) → List (ν × Node ν)
  | [] => []
  | x :: xs => x.anchored ++ anchoredItems xs

/-- The nodes of entries that have anchors. -/
def anchoredEntries : List (Node ν × Node ν) → List (ν × Node ν)
  | [] => []
  | (k, v) :: es => k.anchored ++ v.anchored ++ anchoredEntries es

end

end Node

/-- Names with their numbers. -/
abbrev Numbering := Entries Nat

/-- Numbers the anchor of a label: its name takes the number of names that have one. -/
def Label.number (l : Label String) (names : Numbering) : Label Nat × Numbering :=
  match l.anchor with
  | none => ({ anchor := none, tag := l.tag }, names)
  | some name =>
    ({ anchor := some names.length, tag := l.tag }, Entries.insert name names.length names)

namespace Node

mutual

/-- Replaces names by numbers, given the names before a node. An alias takes the number that its
name has where it stands; a name without one is a fault. -/
def number? : Node String → Numbering → Option (Node Nat × Numbering)
  | .alias name, names => (Entries.find? name names).map fun n => (.alias n, names)
  | .scalar l s p, names =>
    let (l, names) := l.number names
    some (.scalar l s p, names)
  | .sequence l xs, names =>
    let (l, names) := l.number names
    (numberItems? xs names).map fun (xs, names) => (.sequence l xs, names)
  | .mapping l es, names =>
    let (l, names) := l.number names
    (numberEntries? es names).map fun (es, names) => (.mapping l es, names)

/-- Replaces names by numbers in items. -/
def numberItems? : List (Node String) → Numbering → Option (List (Node Nat) × Numbering)
  | [], names => some ([], names)
  | x :: xs, names =>
    (number? x names).bind fun (x, names) =>
      (numberItems? xs names).map fun (xs, names) => (x :: xs, names)

/-- Replaces names by numbers in entries. -/
def numberEntries? :
    List (Node String × Node String) → Numbering → Option (List (Node Nat × Node Nat) × Numbering)
  | [], names => some ([], names)
  | (k, v) :: es, names =>
    (number? k names).bind fun (k, names) =>
      (number? v names).bind fun (v, names) =>
        (numberEntries? es names).map fun (es, names) => ((k, v) :: es, names)

end

/-- Replaces the names of a document by numbers. -/
def numbered? (x : Node String) : Option (Node Nat) :=
  (x.number? []).map Prod.fst

end Node

end ConfigTree.Yaml
