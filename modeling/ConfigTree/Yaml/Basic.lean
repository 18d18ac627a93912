import ConfigTree.Numeric

/-!
# YAML values

The values that YAML texts denote. The keys of a mapping are values themselves, and a value may
carry local tags. `Yaml.same` is the equality by which the keys of one mapping are distinct: the
order of a mapping does not count, an integer never equals a double, and not-a-number equals
itself.
-/

namespace ConfigTree

open Binary (Double)

/-- A YAML value. -/
inductive Yaml where
  | null
  | bool (value : Bool)
  | number (value : Numeric)
  | string (value : String)
  | sequence (items : List Yaml)
  | mapping (entries : List (Yaml × Yaml))
  | tagged (tag : String) (value : Yaml)

namespace Yaml

instance : Inhabited Yaml := ⟨.null⟩

/-- Equality of numbers as keys. -/
def sameNumber : Numeric → Numeric → Bool
  | .integer a, .integer b => a == b
  | .double x, .double y => x.same y || (x.isNaN && y.isNaN)
  | _, _ => false

mutual

/-- Equality of values as keys. -/
def same : Yaml → Yaml → Bool
  | .null, .null => true
  | .bool a, .bool b => a == b
  | .number a, .number b => sameNumber a b
  | .string a, .string b => a == b
  | .sequence xs, .sequence ys => sameItems xs ys
  | .mapping es, .mapping fs => es.length == fs.length && eachIn es fs
  | .tagged s x, .tagged t y => s == t && same x y
  | _, _ => false

/-- Equality of items one by one. -/
def sameItems : List Yaml → List Yaml → Bool
  | [], [] => true
  | x :: xs, y :: ys => same x y && sameItems xs ys
  | _, _ => false

/-- Whether every entry of a mapping is also one of another mapping. -/
def eachIn : List (Yaml × Yaml) → List (Yaml × Yaml) → Bool
  | [], _ => true
  | (k, v) :: es, fs => fs.any (fun f => same k f.1 && same v f.2) && eachIn es fs

end

/-- Whether no two of the keys are equal. -/
def distinctKeys : List (Yaml × Yaml) → Bool
  | [] => true
  | (k, _) :: es => !es.any (fun e => same k e.1) && distinctKeys es

end Yaml

end ConfigTree
