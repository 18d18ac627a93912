import ConfigTree.Decimal.Digits
import ConfigTree.Path.Token
import ConfigTree.Tree.Basic

/-!
# Walking a tree

A token is a step: to a position of a list when it is an index or a word of digits, to a key of a
map otherwise. `walk` takes one step after the other and finds nothing when a step does not fit,
when a position is out of range, or when a key is missing or null. Where the format has a content
key, a step by key that lands on a map with content ends the walk at that content.
-/

namespace ConfigTree.Path

/-- Where a token leads from a node. -/
inductive Step where
  | position (n : Nat)
  | key (name : String)
  deriving DecidableEq, Repr

/-- A key without the escape at its beginning. -/
def keyOf : List Char → List Char
  | [] => []
  | c :: cs => if c = escape then cs else c :: cs

/-- The step that a token stands for. -/
def Token.step : Token → Step
  | .index n => .position n
  | .segment s =>
    match Decimal.natural? s.toList with
    | some n => .position n
    | none => .key (.ofList (keyOf s.toList))

/-- The item at a position of a list. -/
def item? (n : Nat) : Tree → Option Tree
  | .list ts => ts[n]?
  | _ => none

/-- The value under a key of a map, unless it is null. -/
def child? (key : String) : Tree → Option Tree
  | .map es => (Entries.find? key es).filter fun t => !t.isNull
  | _ => none

/-- The content of a map, in a format that has a content key. -/
def content? (format : Format) (t : Tree) : Option Tree :=
  format.rules.contentKey.bind fun key => child? key t

/-- The node that the tokens lead to from `root`. -/
def walk (format : Format) (root : Tree) : List Token → Option Tree
  | [] => some root
  | token :: tokens =>
    match token.step with
    | .position n => (item? n root).bind fun t => walk format t tokens
    | .key name => (child? name root).bind fun t =>
      match content? format t with
      | some content => some content
      | none => walk format t tokens

end ConfigTree.Path
