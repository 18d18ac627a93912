import ConfigTree.Tree.Basic

/-!
# Frames

An element under construction. Values are accumulated under keys: the first value of a key
stands by itself, the second makes a list of the two, and every further one joins that list. The
frame remembers which keys came more than once, because a single value may itself be a list.
-/

namespace ConfigTree.Xml

/-- The key under which the text of an element stands. -/
def contentKey : String := "content"

/-- An element under construction. -/
structure Frame where
  name : String
  entries : Entries Tree
  /-- The keys that came more than once. -/
  repeated : List String

namespace Frame

/-- The frame of an element of which nothing has been read. -/
def ofName (name : String) : Frame :=
  { name, entries := [], repeated := [] }

/-- Adds a value to what stands under a key. -/
def accumulate (f : Frame) (key : String) (value : Tree) : Frame :=
  if key ∈ f.repeated then
    match Entries.find? key f.entries with
    | some (.list items) =>
      { f with entries := Entries.insert key (.list (items ++ [value])) f.entries }
    | _ => f
  else
    match Entries.find? key f.entries with
    | some first =>
      { f with
        entries := Entries.insert key (.list [first, value]) f.entries
        repeated := f.repeated ++ [key] }
    | none => { f with entries := Entries.insert key value f.entries }

/-- The value of a finished element: its content alone if it has nothing else, otherwise the map
of its entries. -/
def finish (f : Frame) : Tree :=
  match f.entries with
  | [(key, value)] => if key = contentKey then value else .map f.entries
  | _ => .map f.entries

end Frame

end ConfigTree.Xml
