import ConfigTree.Error
import ConfigTree.Path.Segment
import ConfigTree.Text

/-!
# Tokens of a path

The segments of a path become tokens. When indices are supplied, a segment `#` takes the next
of them and `\#` stands for a literal `#`; without indices both are ordinary segments. The only
failure is a path with more placeholders than indices.
-/

namespace ConfigTree.Path

/-- One part of an address. -/
inductive Token where
  /-- A segment, with an escape at its beginning still in place. -/
  | segment (text : String)
  /-- An index that was supplied for a placeholder. -/
  | index (position : Nat)
  deriving DecidableEq, Repr

/-- The segment that an index replaces. -/
def placeholder : List Char := ['#']

/-- The segment that stands for a placeholder's text where indices are supplied. -/
def escapedPlaceholder : List Char := [escape, '#']

namespace Token

/-- The text of a segment, the digits of an index. -/
def text : Token → String
  | .segment s => s
  | .index n => toString n

/-- The token of a segment that takes no index. -/
def ofSegment (cs : List Char) : Token :=
  .segment (.ofList (unescape cs))

/-- The tokens of segments where indices are supplied; `none` when the indices run out. -/
def fill? : List (List Char) → List Nat → Option (List Token)
  | [], _ => some []
  | cs :: rest, indices =>
    if cs = placeholder then
      match indices with
      | [] => none
      | i :: is => (fill? rest is).map (.index i :: ·)
    else if cs = escapedPlaceholder then (fill? rest indices).map (.segment "#" :: ·)
    else (fill? rest indices).map (ofSegment cs :: ·)

/-- The tokens of segments. -/
def ofSegments? (segments : List (List Char)) (indices : List Nat) : Option (List Token) :=
  if indices.isEmpty then some (segments.map ofSegment) else fill? segments indices

end Token

/-- The tokens of a path without the blanks around it. -/
def tokenize (path : String) (indices : List Nat) : Except Error (List Token) :=
  let trimmed := Text.trim path.toList
  match Token.ofSegments? (split trimmed) indices with
  | some tokens => .ok tokens
  | none => .error (.tooFewIndices (.ofList trimmed) indices)

end ConfigTree.Path
