import ConfigTree.Text

/-!
# Logical lines of properties

A properties text is a sequence of natural lines. A line that ends in an odd number of
backslashes continues on the next one, whose blanks in front are dropped; a comment never
continues. A line that waits for its continuation when the text ends is lost.
-/

namespace ConfigTree.Properties

/-- The blanks around keys, separators and comments. -/
def isSpace (c : Char) : Bool :=
  c == ' ' || c == '\t' || c == '\r' || c == '\n' || c == '\x0c'

/-- Puts a character in front of the first of some lines. -/
def consFirst (c : Char) : List (List Char) → List (List Char)
  | [] => [[c]]
  | line :: lines => (c :: line) :: lines

/-- The lines of a text between line feeds, carriage returns, and pairs of the two. -/
def naturalLines : List Char → List (List Char)
  | [] => [[]]
  | '\r' :: '\n' :: cs => [] :: naturalLines cs
  | '\n' :: cs => [] :: naturalLines cs
  | '\r' :: cs => [] :: naturalLines cs
  | c :: cs => consFirst c (naturalLines cs)

/-- A line whose first character besides blanks is a comment mark. -/
def isComment (line : List Char) : Bool :=
  match line.dropWhile isSpace with
  | '#' :: _ => true
  | '!' :: _ => true
  | _ => false

/-- A line that ends in an odd number of backslashes. -/
def continues (line : List Char) : Bool :=
  (line.reverse.takeWhile (· == '\\')).length % 2 == 1

/-- The logical lines of natural ones, behind the text of a line that is still to be continued
if there is one. -/
def logicalAfter : Option (List Char) → List (List Char) → List (List Char)
  | _, [] => []
  | none, line :: lines =>
    if !isComment line && continues line then logicalAfter (some line.dropLast) lines
    else line :: logicalAfter none lines
  | some text, line :: lines =>
    let text := text ++ Text.trimStart Text.isBlank line
    if continues text then logicalAfter (some text.dropLast) lines
    else text :: logicalAfter none lines

/-- The logical lines of a text. -/
def logicalLines (cs : List Char) : List (List Char) :=
  logicalAfter none (naturalLines cs)

end ConfigTree.Properties
