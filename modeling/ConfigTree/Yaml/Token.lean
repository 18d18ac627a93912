import ConfigTree.Yaml.Tag

/-!
# Tokens of YAML

The marks and words of a YAML text. The structure that indentation gives to a text is explicit in
its tokens: block collections have a start and an end, and every key has a token in front.
-/

namespace ConfigTree.Yaml

/-- How a scalar is written. -/
inductive Writing where
  | plain
  | quoted
  | block
  deriving DecidableEq, Repr

/-- A mark or word of a YAML text. -/
inductive Token where
  | version (major minor : Nat)
  /-- A shorthand for the tags that begin with `stem`. -/
  | shorthand (handle : String) (stem : Tag)
  | documentStart
  | documentEnd
  | blockSequence
  | blockMapping
  | blockEnd
  | openSequence
  | closeSequence
  | openMapping
  | closeMapping
  /-- The dash in front of an item. -/
  | item
  | comma
  | key
  | value
  | alias (name : String)
  | anchor (name : String)
  /-- The rest of a tag behind a shorthand; an empty handle stands for nothing. -/
  | tag (handle : String) (suffix : Tag)
  | scalar (text : String) (writing : Writing)
  deriving DecidableEq, Repr

end ConfigTree.Yaml
