import ConfigTree.Yaml.Cursor

/-!
# Block scalars

A block scalar begins with a header that says whether line breaks are kept or folded, what
becomes of the breaks at its end, and possibly how far it is indented. Its lines follow; without
a word in the header, the first line that is not empty fixes the indentation. A folded break
between two lines that do not begin with a blank is a space.
-/

namespace ConfigTree.Yaml.BlockText

/-- What becomes of the line breaks at the end. -/
inductive Chomping where
  | strip
  | clip
  | keep
  deriving DecidableEq, Repr

/-- The header of a block scalar. -/
structure Header where
  chomping : Chomping
  /-- The indentation relative to the collection around, if it is given. -/
  indent : Option Nat
  deriving DecidableEq, Repr

/-- Reads a sign for the end of the scalar, if there is one. -/
def takeChomping (c : Cursor) : Option Chomping × Cursor :=
  if c.has '+' then (some .keep, c.advance 1)
  else if c.has '-' then (some .strip, c.advance 1)
  else (none, c)

/-- Reads a digit for the indentation, if there is one; it must not be zero. -/
def takeIndent? (c : Cursor) : Option (Option Nat × Cursor) :=
  match c.rest.head? with
  | none => some (none, c)
  | some d =>
    if d = '0' then none
    else if d.isDigit then some (some (d.toNat - '0'.toNat), c.advance 1)
    else some (none, c)

/-- Reads a header: the two signs in either order. -/
def header? (c : Cursor) : Option (Header × Cursor) :=
  match takeChomping c with
  | (some chomping, c) =>
    (takeIndent? c).bind fun (indent, c) => c.skipLine?.map fun c => (⟨chomping, indent⟩, c)
  | (none, c) =>
    (takeIndent? c).bind fun (indent, c) =>
      let (chomping, c) := if indent.isSome then takeChomping c else (none, c)
      c.skipLine?.map fun c => (⟨chomping.getD .clip, indent⟩, c)

/-- Empty lines that have been read: their breaks and the widest of their indentations, with that
of the line that follows. -/
structure Margin where
  breaks : List Char
  width : Nat
  cursor : Cursor

/-- Reads empty lines and the spaces in front of the line that follows, of which at most `limit`
count as indentation. A tab must not stand among them. -/
def margin? (limit : Option Nat) (breaks : List Char) (width : Nat) (c : Cursor) : Option Margin :=
  let spaces := (c.span (· == ' ')).length
  let counted := match limit with
    | none => spaces
    | some n => min spaces (n - c.column)
  let here := c.advance counted
  let width := max width here.column
  let short := match limit with
    | none => true
    | some n => here.column < n
  if short && here.has '\t' then none
  else if here.atBreak then
    let next := here.skipBreak
    if next.rest.length < c.rest.length then margin? limit (breaks ++ here.lineBreak) width next
    else none
  else some { breaks, width, cursor := here }
termination_by c.rest.length

/-- The text of a block scalar while it is being read. -/
structure Draft where
  text : List Char
  /-- The break at the end of the last line. -/
  ending : List Char
  /-- The breaks of the empty lines behind it. -/
  empties : List Char
  /-- Whether the last line begins with a blank. -/
  indented : Bool

/-- What stands between the last line of a draft and a next one. -/
def Draft.gap (literal : Bool) (d : Draft) (nextIndented : Bool) : List Char :=
  if !literal && d.ending == ['\n'] && !d.indented && !nextIndented then
    if d.empties.isEmpty then [' '] else d.empties
  else d.ending ++ d.empties

/-- Reads the lines of a scalar that is indented by `indent`. -/
def lines? (literal : Bool) (indent : Nat) (d : Draft) (c : Cursor) : Option (Draft × Cursor) :=
  if c.column != indent || c.atEnd then some (d, c)
  else
    let indented := c.atBlank
    let line := c.span (fun x => !isBreak x)
    let behind := c.advance line.length
    let text := d.text ++ d.gap literal indented ++ line
    match margin? (some indent) [] 0 behind.skipBreak with
    | none => none
    | some m =>
      let d := { text, ending := behind.lineBreak, empties := m.breaks, indented }
      if m.cursor.rest.length < c.rest.length then lines? literal indent d m.cursor else none
termination_by c.rest.length

/-- The text of a finished draft. -/
def Draft.finish (chomping : Chomping) (d : Draft) : List Char :=
  match chomping with
  | .strip => d.text
  | .clip => d.text ++ d.ending
  | .keep => d.text ++ d.ending ++ d.empties

/-- Reads a block scalar, from its first mark on, inside a collection indented by `outer`; outside
of every collection `outer` is `-1`. -/
def read? (literal : Bool) (outer : Int) (c : Cursor) : Option (List Char × Cursor) :=
  (header? (c.advance 1)).bind fun (header, c) =>
    let given := header.indent.map fun n => n + outer.toNat
    (margin? given [] 0 c).bind fun m =>
      let indent := given.getD (max (max m.width (outer + 1).toNat) 1)
      let d : Draft := { text := [], ending := [], empties := m.breaks, indented := false }
      (lines? literal indent d m.cursor).map fun (d, c) => (d.finish header.chomping, c)

end ConfigTree.Yaml.BlockText
