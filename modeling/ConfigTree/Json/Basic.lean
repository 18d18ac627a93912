import ConfigTree.Numeric

/-!
# JSON values

The values that JSON texts denote and their correspondence with trees. `Json.ofTree` writes a
double that is not finite as null; `Json.toTree` reads an integer beyond the signed range as the
nearest double.
-/

namespace ConfigTree

/-- A JSON value. -/
inductive Json where
  | null
  | bool (value : Bool)
  | number (value : Numeric)
  | string (value : String)
  | array (items : List Json)
  | object (members : List (String × Json))

namespace Json

/-- The number of a tree as a JSON value. -/
def ofNumber : Number → Json
  | .int i => .number (.integer i.toInt)
  | .float x => if x.isFinite then .number (.double x) else .null

/-- The scalar of a tree as a JSON value. -/
def ofScalar : Scalar → Json
  | .null => .null
  | .bool b => .bool b
  | .number n => ofNumber n
  | .text s => .string s

mutual

/-- The JSON value of a tree. -/
def ofTree : Tree → Json
  | .scalar s => ofScalar s
  | .list ts => .array (ofItems ts)
  | .map es => .object (ofEntries es)

/-- The JSON values of the items of a list. -/
def ofItems : List Tree → List Json
  | [] => []
  | t :: ts => ofTree t :: ofItems ts

/-- The members of the JSON object of a map. -/
def ofEntries : List (String × Tree) → List (String × Json)
  | [] => []
  | (k, t) :: es => (k, ofTree t) :: ofEntries es

end

mutual

/-- The tree of a JSON value. -/
def toTree : Json → Tree
  | .null => Tree.null
  | .bool b => .scalar (.bool b)
  | .number n => .scalar (.number n.toNumber)
  | .string s => .scalar (.text s)
  | .array js => .list (toItems js)
  | .object ms => .map (toEntries ms)

/-- The trees of the items of an array. -/
def toItems : List Json → List Tree
  | [] => []
  | j :: js => toTree j :: toItems js

/-- The entries of the map of an object. -/
def toEntries : List (String × Json) → List (String × Tree)
  | [] => []
  | (k, j) :: ms => (k, toTree j) :: toEntries ms

end

end Json

end ConfigTree
