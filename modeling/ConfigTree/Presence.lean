import ConfigTree.Format
import ConfigTree.Readable

/-!
# Presence

When a lookup counts as successful. A null and an empty collection are as good as absent, and so
is a map in a format that hides maps, unless a map was asked for. `resolve` turns what a lookup
found into the value that its caller gets: what was read, or the default.
-/

namespace ConfigTree

/-- Whether a node that was found is handed to a caller. -/
def isPresent (format : Format) (wantsMap : Bool) (t : Tree) : Bool :=
  !t.isNull && !(format.rules.hidesMaps && !wantsMap && t.isMap) && !t.isEmptyCollection

/-- The node that was found, if it is present. -/
def present? (format : Format) (wantsMap : Bool) (found : Option Tree) : Option Tree :=
  found.filter (isPresent format wantsMap)

/-- The value that was found, read as the default is, or else the default. -/
def resolve {α : Type} [Readable α] (format : Format) (found : Option Tree) (default : α) : α :=
  match present? format (Readable.isMap default) found with
  | some t => (Readable.read t).getD default
  | none => default

end ConfigTree
