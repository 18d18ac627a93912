import ConfigTree.Error
import ConfigTree.Yaml.Basic

/-!
# Trees of YAML values

A mapping becomes a map under the texts of its keys. Keys that differ as values may have one
text; the last of their values stays, at the place of the first. Tags do not count. A mapping
with a key that is a collection has no tree, nor has a value with such a mapping in it.
-/

namespace ConfigTree.Yaml

open Decimal (Style)

/-- The spelling of doubles in keys: positional from `0.00001` up to `1e16`. -/
def keyStyle : Style :=
  { lowest := -5, highest := 16, plus := false, tie := .toEven, nan := ".nan", infinity := ".inf" }

/-- The text of a value as a key; collections have none. -/
def keyText? : Yaml → Option String
  | .null => some "null"
  | .bool b => some (if b then "true" else "false")
  | .number n => some (String.ofList (n.text keyStyle))
  | .string s => some s
  | .sequence _ => none
  | .mapping _ => none
  | .tagged _ v => v.keyText?

mutual

/-- The tree of a value. -/
def toTree : Yaml → Except Fault Tree
  | .null => .ok Tree.null
  | .bool b => .ok (.scalar (.bool b))
  | .number n => .ok (.scalar (.number n.toNumber))
  | .string s => .ok (.text s)
  | .sequence xs => (toItems xs).map .list
  | .mapping es => (toPairs es).map fun ps => .map (Entries.ofPairs ps)
  | .tagged _ v => toTree v

/-- The trees of the items of a sequence. -/
def toItems : List Yaml → Except Fault (List Tree)
  | [] => .ok []
  | x :: xs => (toTree x).bind fun t => (toItems xs).map (t :: ·)

/-- The texts of the keys of a mapping with the trees of its values. -/
def toPairs : List (Yaml × Yaml) → Except Fault (List (String × Tree))
  | [] => .ok []
  | (k, v) :: es =>
    match keyText? k with
    | none => .error .collectionKey
    | some key => (toTree v).bind fun t => (toPairs es).map ((key, t) :: ·)

end

end ConfigTree.Yaml
