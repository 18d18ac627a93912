/-!
# Segments of a path

A path is cut at its dots. A backslash before a dot keeps the dot: `split` leaves both
characters in the segment and `unescape` then drops the backslash. A backslash that stands
behind another backslash keeps nothing.
-/

namespace ConfigTree.Path

/-- The character between segments. -/
def separator : Char := '.'

/-- The character that keeps what follows it literal. -/
def escape : Char := '\\'

/-- Puts a character in front of the first of some segments. -/
def consFirst (c : Char) : List (List Char) → List (List Char)
  | [] => [[c]]
  | segment :: segments => (c :: segment) :: segments

/-- Cuts at every separator that does not follow an escape; the flag says whether an escape
stands right before the text. -/
def splitAfter (escaped : Bool) : List Char → List (List Char)
  | [] => [[]]
  | c :: cs =>
    if c = separator ∧ escaped = false then [] :: splitAfter false cs
    else consFirst c (splitAfter (c == escape) cs)

/-- The segments of a path; at least one. -/
def split (path : List Char) : List (List Char) :=
  splitAfter false path

/-- The path with the given segments. -/
def join : List (List Char) → List Char
  | [] => []
  | [segment] => segment
  | segment :: segments => segment ++ separator :: join segments

/-- Drops every escape before a separator, except behind another escape; the flag says whether
an escape stands right before the text. -/
def unescapeAfter (escaped : Bool) : List Char → List Char
  | [] => []
  | [c] => [c]
  | c :: d :: cs =>
    if c = escape ∧ escaped = false ∧ d = separator then separator :: unescapeAfter false cs
    else c :: unescapeAfter (c == escape) (d :: cs)

/-- A segment with its escaped separators made plain. -/
def unescape (segment : List Char) : List Char :=
  unescapeAfter false segment

end ConfigTree.Path
