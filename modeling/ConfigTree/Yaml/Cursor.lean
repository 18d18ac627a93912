import ConfigTree.Text

/-!
# Places in a YAML text

A `Cursor` is what is left of a text together with its place: how many bytes, lines, and columns
of the last line lie before it. The operations move over text of known shape: characters
of one line, a line break, or a run of blanks and line breaks.
-/

namespace ConfigTree.Yaml

/-- A space or a tab. -/
def isBlank (c : Char) : Bool :=
  c == ' ' || c == '\t'

/-- The characters that end a line. -/
def isBreak (c : Char) : Bool :=
  c == '\n' || c == '\r' || c == '\u0085' || c == '\u2028' || c == '\u2029'

/-- A blank or a line break. -/
def isGap (c : Char) : Bool :=
  isBlank c || isBreak c

/-- The characters of names. -/
def isWord (c : Char) : Bool :=
  c.isAlphanum || c == '_' || c == '-'

/-- The characters that a text may hold. -/
def isPrintable (c : Char) : Bool :=
  let n := c.toNat
  n == 0x9 || n == 0xA || n == 0xD || (0x20 ≤ n && n ≤ 0x7E) || n == 0x85 ||
    (0xA0 ≤ n && n ≤ 0xD7FF) || (0xE000 ≤ n && n ≤ 0xFFFD) || 0x10000 ≤ n

/-- A line break as it stands in a value: the separators of lines and paragraphs stay, every
other break is a line feed. -/
def breakChar (c : Char) : Char :=
  if c = '\u2028' ∨ c = '\u2029' then c else '\n'

/-- What is left of a text, and its place. -/
structure Cursor where
  rest : List Char
  /-- The number of bytes before the place. -/
  index : Nat
  line : Nat
  /-- The number of characters before the place in its line. -/
  column : Nat

namespace Cursor

/-- The beginning of a text. -/
def ofText (cs : List Char) : Cursor :=
  { rest := cs, index := 0, line := 0, column := 0 }

/-- Moves over `n` characters of a line. -/
def advance (c : Cursor) (n : Nat) : Cursor :=
  { c with
    rest := c.rest.drop n
    index := c.index + Text.byteSize (c.rest.take n)
    column := c.column + n }

/-- The characters of the line up to the first that does not satisfy `p`. -/
def span (p : Char → Bool) (c : Cursor) : List Char :=
  c.rest.takeWhile p

/-- Moves over the characters of the line that satisfy `p`. -/
def skip (p : Char → Bool) (c : Cursor) : Cursor :=
  c.advance (c.span p).length

/-- Whether the character `n` places ahead is `x`. -/
def hasAt (c : Cursor) (n : Nat) (x : Char) : Bool :=
  c.rest[n]? == some x

/-- Whether the next character is `x`. -/
def has (c : Cursor) (x : Char) : Bool :=
  c.rest.head? == some x

/-- Whether nothing is left. -/
def atEnd (c : Cursor) : Bool :=
  c.rest.isEmpty

/-- Whether a line break comes next. -/
def atBreak (c : Cursor) : Bool :=
  c.rest.head?.any isBreak

/-- Whether a space or a tab comes next. -/
def atBlank (c : Cursor) : Bool :=
  c.rest.head?.any isBlank

/-- Whether the character `n` places ahead is a blank, a line break or the end. -/
def gapAt (c : Cursor) (n : Nat) : Bool :=
  c.rest[n]?.all isGap

/-- Whether a line break or the end comes next. -/
def atLineEnd (c : Cursor) : Bool :=
  c.atEnd || c.atBreak

/-- The number of characters of a line break; a carriage return and a line feed are one. -/
def breakLength : List Char → Nat
  | '\r' :: '\n' :: _ => 2
  | c :: _ => if isBreak c then 1 else 0
  | [] => 0

/-- The line break that comes next, as it stands in a value; nothing if there is none. -/
def lineBreak (c : Cursor) : List Char :=
  match c.rest with
  | x :: _ => if isBreak x then [breakChar x] else []
  | [] => []

/-- Moves over a line break if there is one. -/
def skipBreak (c : Cursor) : Cursor :=
  let n := breakLength c.rest
  if n = 0 then c
  else
    { rest := c.rest.drop n
      index := c.index + Text.byteSize (c.rest.take n)
      line := c.line + 1
      column := 0 }

/-- Moves over a mark of the byte order at the beginning of a line. -/
def skipMark (c : Cursor) : Cursor :=
  if c.column == 0 && c.has '\ufeff' then c.advance 1 else c

/-- Moves over blanks and a comment to the end of the line and into the next one. -/
def skipLine? (c : Cursor) : Option Cursor :=
  let c := c.skip isBlank
  let c := if c.has '#' then c.skip (fun x => !isBreak x) else c
  if c.atLineEnd then some c.skipBreak else none

/-- Whether a line begins here that starts or ends a document. -/
def atDocumentMark (c : Cursor) : Bool :=
  c.column == 0 && (['-', '-', '-'].isPrefixOf c.rest || ['.', '.', '.'].isPrefixOf c.rest) &&
    c.gapAt 3

end Cursor

/-- Blanks and line breaks between two words of a scalar: the blanks of the first line, and each
line break with the blanks behind it. -/
structure Run where
  first : List Char
  lines : List (Char × List Char)
  deriving DecidableEq, Repr

namespace Run

/-- The run that consists of the given blanks and line breaks. -/
def ofText : List Char → Run
  | [] => ⟨[], []⟩
  | '\r' :: '\n' :: cs =>
    let r := ofText cs
    ⟨[], ('\n', r.first) :: r.lines⟩
  | c :: cs =>
    let r := ofText cs
    if isBreak c then ⟨[], (breakChar c, r.first) :: r.lines⟩ else { r with first := c :: r.first }

/-- The line breaks of a run. -/
def breaks (r : Run) : List Char :=
  r.lines.map Prod.fst

/-- Line breaks between two words: a single line feed is a space, and of several the first is
dropped. -/
def foldBreaks : List Char → List Char
  | [] => []
  | ['\n'] => [' ']
  | '\n' :: more => more
  | breaks => breaks

/-- What a run is in a value: its blanks if it is within a line, otherwise its folded breaks. -/
def fold (r : Run) : List Char :=
  if r.lines.isEmpty then r.first else foldBreaks r.breaks

/-- Whether a tab stands before column `indent` of a line that the run begins. -/
def hasTabBefore (indent : Nat) (r : Run) : Bool :=
  r.lines.any fun l => (l.2.take indent).contains '\t'

end Run

namespace Cursor

/-- The run of blanks and line breaks that comes next. -/
def run (c : Cursor) : Run :=
  Run.ofText (c.span isGap)

/-- Moves over the run of blanks and line breaks that comes next. -/
def skipRun (c : Cursor) : Cursor :=
  let cs := c.span isGap
  let r := Run.ofText cs
  { rest := c.rest.drop cs.length
    index := c.index + Text.byteSize cs
    line := c.line + r.lines.length
    column := match r.lines.getLast? with
      | none => c.column + cs.length
      | some l => l.2.length }

end Cursor

end ConfigTree.Yaml
