import ConfigTree.Error
import ConfigTree.Json.Lexeme

/-!
# Reading JSON

Lexemes are read one after the other. The state of the reader is what may come next together
with the collections that are still open, the innermost first; each is a `Hole` that waits for a
value. `Json.parse?` reads one value that fills the whole text. Collections may be open in at most
`Reader.maxDepth` levels.
-/

namespace ConfigTree.Json

/-- A collection with a place for its next value. -/
inductive Hole where
  /-- An array; the items so far, the last one first. -/
  | item (items : List Json)
  /-- An object; the members so far, and the key of the next one. -/
  | member (members : Entries Json) (key : String)

/-- What may come next. -/
inductive Reader where
  /-- A value. -/
  | value (holes : List Hole)
  /-- The first item of an array, or its end. -/
  | firstItem (holes : List Hole)
  /-- The first key of an object, or its end. -/
  | firstKey (holes : List Hole)
  /-- A key. -/
  | key (members : Entries Json) (holes : List Hole)
  /-- The colon behind a key. -/
  | colon (members : Entries Json) (key : String) (holes : List Hole)
  /-- A comma or the end of an array. -/
  | nextItem (items : List Json) (holes : List Hole)
  /-- A comma or the end of an object. -/
  | nextMember (members : Entries Json) (holes : List Hole)
  /-- Nothing: the value is complete. -/
  | done (value : Json)

namespace Reader

/-- How many collections may be open at once. -/
def maxDepth : Nat := 127

/-- Puts a value into the innermost hole. -/
def put (v : Json) : List Hole → Reader
  | [] => .done v
  | .item items :: holes => .nextItem (v :: items) holes
  | .member members k :: holes => .nextMember (Entries.insert k v members) holes

/-- Reads the first lexeme of a value. -/
def begin? (holes : List Hole) : Lexeme → Option Reader
  | .null => some (put .null holes)
  | .bool b => some (put (.bool b) holes)
  | .number n => some (put (.number n) holes)
  | .string s => some (put (.string s) holes)
  | .openArray => if holes.length < maxDepth then some (.firstItem holes) else none
  | .openObject => if holes.length < maxDepth then some (.firstKey holes) else none
  | _ => none

/-- Reads one lexeme. -/
def step? : Reader → Lexeme → Option Reader
  | .value holes, l => begin? holes l
  | .firstItem holes, .closeArray => some (put (.array []) holes)
  | .firstItem holes, l => begin? (.item [] :: holes) l
  | .firstKey holes, .closeObject => some (put (.object []) holes)
  | .firstKey holes, .string k => some (.colon [] k holes)
  | .key members holes, .string k => some (.colon members k holes)
  | .colon members k holes, .colon => some (.value (.member members k :: holes))
  | .nextItem items holes, .comma => some (.value (.item items :: holes))
  | .nextItem items holes, .closeArray => some (put (.array items.reverse) holes)
  | .nextMember members holes, .comma => some (.key members holes)
  | .nextMember members holes, .closeObject => some (put (.object members) holes)
  | _, _ => none

/-- Reads lexemes in order. -/
def run? (r : Reader) : List Lexeme → Option Reader
  | [] => some r
  | l :: ls => (r.step? l).bind fun r => run? r ls

end Reader

/-- The value that a sequence of lexemes spells. -/
def ofLexemes? (ls : List Lexeme) : Option Json :=
  match Reader.run? (.value []) ls with
  | some (.done v) => some v
  | _ => none

/-- The value that a text spells. -/
def parse? (text : String) : Option Json :=
  (Lexeme.ofText? text.toList).bind ofLexemes?

/-- The tree of a JSON document. -/
def decode (text : String) : Except Fault Tree :=
  match parse? text with
  | some v => .ok v.toTree
  | none => .error .malformed

end ConfigTree.Json
