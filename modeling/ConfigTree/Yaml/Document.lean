import ConfigTree.Yaml.Grammar
import ConfigTree.Yaml.Literal
import ConfigTree.Yaml.Tokens
import ConfigTree.Yaml.Tree

/-!
# YAML documents

The value of a document is the value of its node. An alias has the value of the node under its
anchor, which may lie around the alias; that collections are open in at most `maxDepth` levels,
and that only so many aliases are followed as the document has marks a hundred times over, keeps
every value finite. `Yaml.decode` reads the tree of a text.
-/

namespace ConfigTree.Yaml

/-- The greatest number of levels of collections. -/
def maxDepth : Nat := 128

/-- How often an alias may be followed for each mark of a document. -/
def aliasesPerMark : Nat := 100

/-- The nodes under anchors. -/
abbrev Anchors := List (Nat × Node Nat)

/-- The node under an anchor; of several, the last one. -/
def Anchors.find? (anchors : Anchors) (n : Nat) : Option (Node Nat) :=
  (anchors.reverse.find? (·.1 == n)).map Prod.snd

/-- The node that a node stands for. The state is the number of aliases that may be followed. -/
def follow (anchors : Anchors) : Node Nat → StateT Nat Option (Node Nat)
  | .alias n => fun left => if left = 0 then none else (anchors.find? n).map (·, left - 1)
  | x => pure x

/-- Puts a local tag around the value of a collection; any other tag does not count. -/
def withTag (tag : Option Tag) (v : Yaml) : Yaml :=
  match tag.bind Tag.localName? with
  | some name => .tagged name v
  | none => v

/-- The value of a node that is inside so many further collections. The keys of a mapping must be
distinct. -/
def ofNode (anchors : Anchors) (depth : Nat) (x : Node Nat) : StateT Nat Option Yaml := do
  match ← follow anchors x with
  | .alias _ => failure
  | .scalar l s plain => ofScalar? l.tag plain s
  | .sequence l xs =>
    match depth with
    | 0 => failure
    | depth + 1 => return withTag l.tag (.sequence (← xs.mapM (ofNode anchors depth)))
  | .mapping l es =>
    match depth with
    | 0 => failure
    | depth + 1 =>
      let pairs ← es.mapM fun (k, v) => return (← ofNode anchors depth k, ← ofNode anchors depth v)
      if distinctKeys pairs then return withTag l.tag (.mapping pairs) else failure

/-- The value of a text that is a YAML document. -/
def parse? (text : String) : Option Yaml :=
  (tokens? text.toList).bind fun ts =>
    (Node.ofTokens? ts).bind fun named =>
      named.numbered?.bind fun x =>
        ((ofNode x.anchored maxDepth x).run (aliasesPerMark * x.size)).map Prod.fst

/-- The tree of a YAML document. -/
def decode (text : String) : Except Fault Tree :=
  match parse? text with
  | some v => v.toTree
  | none => .error .malformed

end ConfigTree.Yaml
