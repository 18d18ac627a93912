import ConfigTree.Json.Print

/-!
# Offers

A value comes into a JSON document by what it offers: a single value, items in their order, or
entries in theirs, whose keys are offers like their values. `Json.ofOffer?` takes an offer in and
fails at a key that cannot be one of an object: a key is a text, or has the literal of a flag or of
a number for its text. A key that is offered again keeps its place and takes the later value.
-/

namespace ConfigTree

open Binary (Double)

/-- What a value offers to a document. -/
inductive Offer where
  | unit
  | bool (value : Bool)
  | integer (value : Int64)
  | double (value : Double)
  | text (value : String)
  | items (offers : List Offer)
  | entries (offers : List (Offer × Offer))

/-- What a scalar offers. -/
def Scalar.offer : Scalar → Offer
  | .null => .unit
  | .bool b => .bool b
  | .number (.int i) => .integer i
  | .number (.float x) => .double x
  | .text s => .text s

namespace Tree

mutual

/-- What a tree offers: its kind leaves no trace besides its parts. -/
def offer : Tree → Offer
  | .scalar s => s.offer
  | .list ts => .items (offerItems ts)
  | .map es => .entries (offerEntries es)

/-- What the items of a list offer. -/
def offerItems : List Tree → List Offer
  | [] => []
  | t :: ts => offer t :: offerItems ts

/-- What the entries of a map offer, with their keys as texts. -/
def offerEntries : List (String × Tree) → List (Offer × Offer)
  | [] => []
  | (k, t) :: es => (.text k, offer t) :: offerEntries es

end

end Tree

namespace Json

/-- The key of an object that an offer makes. -/
def keyOfOffer? : Offer → Option String
  | .bool b => some (if b then "true" else "false")
  | .integer i => some (.ofList (Decimal.signedDigits i.toInt))
  | .double x =>
    if x.isFinite then some (.ofList ((Numeric.double x).text doubleStyle)) else none
  | .text s => some s
  | .unit | .items _ | .entries _ => none

mutual

/-- The JSON value that an offer makes; none if a key in it makes none. -/
def ofOffer? : Offer → Option Json
  | .unit => some .null
  | .bool b => some (.bool b)
  | .integer i => some (.number (.integer i.toInt))
  | .double x => some (if x.isFinite then .number (.double x) else .null)
  | .text s => some (.string s)
  | .items os => (ofOffers? os).map .array
  | .entries ps => (addOffers? [] ps).map .object

/-- The JSON values that offers make one after the other. -/
def ofOffers? : List Offer → Option (List Json)
  | [] => some []
  | o :: os => (ofOffer? o).bind fun j => (ofOffers? os).map (j :: ·)

/-- Sets the members that offered entries make, one after the other. -/
def addOffers? (members : Entries Json) : List (Offer × Offer) → Option (Entries Json)
  | [] => some members
  | (k, o) :: ps => (keyOfOffer? k).bind fun key =>
    (ofOffer? o).bind fun j => addOffers? (Entries.insert key j members) ps

end

end Json

end ConfigTree
