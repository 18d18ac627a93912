import ConfigTree.Json.Print

/-!
# The text of a tree

Every tree has a text: a text stands for itself, another scalar for its literal, and a collection
is written as compact JSON.
-/

namespace ConfigTree

/-- The literal of a number. -/
def Number.display : Number → String
  | .int i => .ofList (Decimal.signedDigits i.toInt)
  | .float x => .ofList (Decimal.plainStyle.write .double x.value)

/-- The text of a scalar. -/
def Scalar.display : Scalar → String
  | .null => "null"
  | .bool b => if b then "true" else "false"
  | .number n => n.display
  | .text s => s

/-- The text of a tree. -/
def Tree.display : Tree → String
  | .scalar s => s.display
  | t => Json.compactText t

end ConfigTree
