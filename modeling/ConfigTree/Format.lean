import ConfigTree.Text

/-!
# Document formats

The four formats of documents and the rules of lookup that depend on them. In XML an element
that has attributes keeps its text under the key `content`, which a lookup enters by itself, and
maps are hidden from readers that did not ask for one.
-/

namespace ConfigTree

/-- The language that a document is written in. -/
inductive Format where
  | json
  | yaml
  | xml
  | properties
  deriving DecidableEq, Repr

/-- How lookups treat the maps of a format. -/
structure LookupRules where
  /-- The key under which an element's text stands beside its attributes. -/
  contentKey : Option String
  /-- Whether a map is found only by readers of maps. -/
  hidesMaps : Bool
  deriving DecidableEq, Repr

namespace Format

/-- How lookups treat the maps of a format: only XML elements are special. -/
def rules : Format → LookupRules
  | .xml => { contentKey := some "content", hidesMaps := true }
  | _ => { contentKey := none, hidesMaps := false }

/-- The name of a format in messages. -/
def name : Format → String
  | .json => "JSON"
  | .yaml => "YAML"
  | .xml => "XML"
  | .properties => "properties"

/-- The format of a file extension, given without its dot and in any case of letters. -/
def ofExtension? (extension : String) : Option Format :=
  match String.ofList (extension.toList.map Char.toLower) with
  | "json" => some .json
  | "yaml" => some .yaml
  | "yml" => some .yaml
  | "xml" => some .xml
  | "properties" => some .properties
  | _ => none

end Format

end ConfigTree
