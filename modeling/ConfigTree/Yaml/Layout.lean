import ConfigTree.Yaml.Cursor
import ConfigTree.Yaml.Token

/-!
# Layout

Block collections are marked by indentation alone, and a key need not be marked at all before the
colon behind it. A `Layout` is what must be known of a text up to a place so that the tokens for
both can be put where they belong: the columns of the open block collections, the flow
collections around, and where a key may have begun that a colon would make one.
-/

namespace ConfigTree.Yaml

/-- A place where a key may have begun. -/
structure KeyStart where
  /-- Whether the text is faulty if no key begins here. -/
  required : Bool
  /-- The number of tokens in front of it. -/
  position : Nat
  line : Nat
  index : Nat
  column : Nat

/-- The greatest number of bytes between the beginning of a key and the colon behind it. -/
def KeyStart.maxLength : Nat := 1024

/-- Whether a colon at a place would still make a key: a key stands in one line. -/
def KeyStart.reaches (k : KeyStart) (c : Cursor) : Bool :=
  k.line == c.line && c.index ≤ k.index + maxLength

/-- What has been read of a text. -/
structure Layout where
  cursor : Cursor
  tokens : Array Token
  /-- The columns of the open block collections, the innermost first. -/
  indents : List Nat
  /-- Where a key may have begun in the innermost collection. -/
  key : Option KeyStart
  /-- The same for what is around each open flow collection, the innermost first. -/
  outerKeys : List (Option KeyStart)
  /-- Whether a key may begin here. -/
  keyAllowed : Bool

namespace Layout

/-- The beginning of a text. -/
def ofText (cs : List Char) : Layout :=
  { cursor := Cursor.ofText cs
    tokens := #[]
    indents := []
    key := none
    outerKeys := []
    keyAllowed := true }

/-- Whether a flow collection is open. -/
def inFlow (l : Layout) : Bool :=
  !l.outerKeys.isEmpty

/-- The column of the innermost block collection; outside of all it is `-1`. -/
def indent (l : Layout) : Int :=
  match l.indents with
  | [] => -1
  | column :: _ => column

/-- Appends a token. -/
def push (t : Token) (l : Layout) : Layout :=
  { l with tokens := l.tokens.push t }

/-- Moves over `n` characters of the line. -/
def advance (n : Nat) (l : Layout) : Layout :=
  { l with cursor := l.cursor.advance n }

/-- Says whether a key may begin next. -/
def allowKey (allowed : Bool) (l : Layout) : Layout :=
  { l with keyAllowed := allowed }

/-- Moves over blanks, comments and line breaks to the next token. A mark of the byte order may
stand at the beginning of a line, where it takes a column. A key may begin in a new line of block
context. A tab must not stand where a key may begin in block context. -/
def skipGap (l : Layout) : Layout :=
  let isSkipped (x : Char) := x == ' ' || (x == '\t' && (l.inFlow || !l.keyAllowed))
  let c := l.cursor.skipMark.skip isSkipped
  let c := if c.has '#' then c.skip (fun x => !isBreak x) else c
  if c.atBreak then
    let next := { l with cursor := c.skipBreak, keyAllowed := l.keyAllowed || !l.inFlow }
    if next.cursor.rest.length < l.cursor.rest.length then skipGap next else next
  else { l with cursor := c }
termination_by l.cursor.rest.length

/-- Gives up the place where a key may have begun; a required key must not be given up. -/
def dropKey? (l : Layout) : Option Layout :=
  match l.key with
  | some k => if k.required then none else some { l with key := none }
  | none => some l

/-- Gives up the places from where a key can no longer reach up to here. -/
def dropStaleKeys? (l : Layout) : Option Layout :=
  let fresh? (key : Option KeyStart) : Option (Option KeyStart) :=
    match key with
    | some k => if k.reaches l.cursor then some key else if k.required then none else some none
    | none => some none
  (fresh? l.key).bind fun key =>
    (l.outerKeys.mapM fresh?).map fun outerKeys => { l with key, outerKeys }

/-- The key that may begin here. It has to at the column of a block collection. -/
def keyStart (l : Layout) : KeyStart :=
  { required := !l.inFlow && l.indent == l.cursor.column
    position := l.tokens.size
    line := l.cursor.line
    index := l.cursor.index
    column := l.cursor.column }

/-- Remembers that a key may begin here, if one may. -/
def noteKey? (l : Layout) : Option Layout :=
  if l.keyAllowed then
    l.dropKey?.map fun l => { l with key := some l.keyStart }
  else some l

/-- Closes the block collections whose columns satisfy `p`, from the innermost on. -/
def closeBlocks (p : Nat → Bool) (l : Layout) : Layout :=
  if l.inFlow then l
  else
    let closed := l.indents.takeWhile p
    { l with
      tokens := l.tokens ++ Array.replicate closed.length .blockEnd
      indents := l.indents.drop closed.length }

/-- Opens a block collection at a column, with its start in front of the token at a position,
unless one of that column is open. -/
def openBlock (start : Token) (column position : Nat) (l : Layout) : Layout :=
  if !l.inFlow && l.indent < column then
    { l with
      tokens := l.tokens.insertIdxIfInBounds position start
      indents := column :: l.indents }
  else l

/-- Opens a block collection for a mark that stands here. In block context such a mark must stand
where a key may begin. -/
def openBlockHere? (start : Token) (l : Layout) : Option Layout :=
  if l.inFlow then some l
  else if l.keyAllowed then some (l.openBlock start l.cursor.column l.tokens.size)
  else none

end Layout

end ConfigTree.Yaml
