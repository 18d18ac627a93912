/-!
# Tags

A tag says what kind of value a node has. `Tag.core` are the tags of the core vocabulary; a tag
that begins with an exclamation mark is local to a document.
-/

namespace ConfigTree.Yaml

/-- A tag is a word of octets: it is written in ASCII, with escapes for all other octets. -/
abbrev Tag := List UInt8

namespace Tag

/-- The tag that is written without escapes. -/
def ofText (text : String) : Tag :=
  text.toUTF8.toList

/-- The tag `!`, with which every local tag begins. -/
def bare : Tag := ofText "!"

/-- The tag with a name in the core vocabulary. -/
def core (name : String) : Tag :=
  ofText ("tag:yaml.org,2002:" ++ name)

/-- Drops a leading exclamation mark that is not the whole name. -/
def dropMark : List Char → List Char
  | '!' :: c :: cs => c :: cs
  | cs => cs

/-- Whether a tag begins with an exclamation mark. -/
def isLocal (tag : Tag) : Bool :=
  bare.isPrefixOf tag

/-- The name of a local tag. Octets that are no text make no name. -/
def localName? (tag : Tag) : Option String :=
  if tag.isLocal then
    (String.fromUTF8? ⟨tag.toArray⟩).map fun s => String.ofList (dropMark (dropMark s.toList))
  else none

end Tag

end ConfigTree.Yaml
