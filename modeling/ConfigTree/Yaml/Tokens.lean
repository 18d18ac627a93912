import ConfigTree.Yaml.BlockText
import ConfigTree.Yaml.Directive
import ConfigTree.Yaml.Layout
import ConfigTree.Yaml.PlainText
import ConfigTree.Yaml.QuotedText

/-!
# The tokens of a text

The next token is known from one or two characters and the layout up to it. `tokens?` reads all
tokens of a text; there are none if a character is not allowed in it, or no token begins with it
at its place.
-/

namespace ConfigTree.Yaml

namespace Layout

/-- The mark of a document; it ends all block collections. -/
def documentMark? (t : Token) (l : Layout) : Option Layout :=
  (l.closeBlocks fun _ => true).dropKey?.map fun l => ((l.push t).advance 3).allowKey false

/-- A directive; it ends all block collections. -/
def directive? (l : Layout) : Option Layout :=
  (l.closeBlocks fun _ => true).dropKey?.bind fun l =>
    (Directive.read? l.cursor).map fun (t, cursor) =>
      { (l.push t).allowKey false with cursor }

/-- The start of a flow collection, which may itself be a key. -/
def openFlow? (t : Token) (l : Layout) : Option Layout :=
  l.noteKey?.map fun l =>
    { ((l.push t).advance 1).allowKey true with key := none, outerKeys := l.key :: l.outerKeys }

/-- The end of a flow collection. -/
def closeFlow? (t : Token) (l : Layout) : Option Layout :=
  l.dropKey?.map fun l =>
    let l := ((l.push t).advance 1).allowKey false
    match l.outerKeys with
    | [] => l
    | key :: outerKeys => { l with key, outerKeys }

/-- A comma. -/
def comma? (l : Layout) : Option Layout :=
  l.dropKey?.map fun l => ((l.push .comma).advance 1).allowKey true

/-- The dash in front of an item. -/
def item? (l : Layout) : Option Layout :=
  (l.openBlockHere? .blockSequence).bind fun l =>
    l.dropKey?.map fun l => ((l.push .item).advance 1).allowKey true

/-- The question mark in front of a key. -/
def key? (l : Layout) : Option Layout :=
  (l.openBlockHere? .blockMapping).bind fun l =>
    l.dropKey?.map fun l => ((l.push .key).advance 1).allowKey (!l.inFlow)

/-- The colon in front of a value. Where a key may have begun, it did. -/
def value? (l : Layout) : Option Layout :=
  let behind (l : Layout) (allowed : Bool) := ((l.push .value).advance 1).allowKey allowed
  match l.key with
  | some k =>
    let l := { l with tokens := l.tokens.insertIdxIfInBounds k.position .key, key := none }
    some (behind (l.openBlock .blockMapping k.column k.position) false)
  | none => (l.openBlockHere? .blockMapping).map fun l => behind l (!l.inFlow)

/-- A token that may begin a key. -/
def content? (read? : Cursor → Option (Token × Cursor)) (l : Layout) : Option Layout :=
  l.noteKey?.bind fun l =>
    (read? l.cursor).map fun (t, cursor) => { (l.push t).allowKey false with cursor }

/-- The marks that may follow a name. -/
def nameEnds : List Char := ['?', ':', ',', ']', '}', '%', '@', '\x60']

/-- Reads a name, from the mark in front of it on. -/
def readName? (token : String → Token) (c : Cursor) : Option (Token × Cursor) :=
  let name := (c.advance 1).span isWord
  let c := c.advance (1 + name.length)
  if !name.isEmpty && (c.gapAt 0 || c.rest.head?.any nameEnds.contains) then
    some (token (String.ofList name), c)
  else none

/-- A quoted scalar. -/
def quoted? (quote : QuotedText.Quote) (l : Layout) : Option Layout :=
  l.content? fun c =>
    (QuotedText.read? quote c).map fun (text, c) => (.scalar (String.ofList text) .quoted, c)

/-- A block scalar. It ends a line, so that a key may begin behind it. -/
def block? (literal : Bool) (l : Layout) : Option Layout :=
  l.dropKey?.bind fun l =>
    (BlockText.read? literal l.indent l.cursor).map fun (text, cursor) =>
      { (l.push (.scalar (String.ofList text) .block)).allowKey true with cursor }

/-- A plain scalar. Behind it a key may begin if line breaks follow it. -/
def plain? (l : Layout) : Option Layout :=
  l.noteKey?.bind fun l =>
    (PlainText.read? l.inFlow (l.indent + 1).toNat l.cursor).map fun r =>
      { (l.push (.scalar (String.ofList r.text) .plain)).allowKey r.endsLine with
        cursor := r.cursor }

/-- Reads a token that begins here with the character `c`. -/
def token? (c : Char) (l : Layout) : Option Layout :=
  if l.cursor.column = 0 ∧ c = '%' then l.directive?
  else if l.cursor.atDocumentMark then
    l.documentMark? (if c = '-' then .documentStart else .documentEnd)
  else
    let flowOrGap := l.inFlow || l.cursor.gapAt 1
    match c with
    | '[' => l.openFlow? .openSequence
    | '{' => l.openFlow? .openMapping
    | ']' => l.closeFlow? .closeSequence
    | '}' => l.closeFlow? .closeMapping
    | ',' => l.comma?
    | '-' => if l.cursor.gapAt 1 then l.item? else l.plain?
    | '?' => if flowOrGap then l.key? else l.plain?
    | ':' => if flowOrGap then l.value? else l.plain?
    | '*' => l.content? (readName? .alias)
    | '&' => l.content? (readName? .anchor)
    | '!' => l.content? (TagText.read? l.inFlow)
    | '|' => if l.inFlow then none else l.block? true
    | '>' => if l.inFlow then none else l.block? false
    | '\x27' => l.quoted? .single
    | '"' => l.quoted? .double
    | '%' => none
    | '@' => none
    | '\x60' => none
    | c => if isGap c then none else l.plain?

/-- Moves to the next token and settles what ends in front of it. -/
def toNext? (l : Layout) : Option Layout :=
  let l := l.skipGap
  l.dropStaleKeys?.map fun l => l.closeBlocks fun column => l.cursor.column < column

/-- Reads the tokens that are left. -/
def readAll? (l : Layout) : Option (Array Token) :=
  match l.toNext? with
  | none => none
  | some here =>
    match here.cursor.rest with
    | [] => (here.closeBlocks fun _ => true).dropKey?.map Layout.tokens
    | c :: _ =>
      match here.token? c with
      | none => none
      | some next =>
        if next.cursor.rest.length < l.cursor.rest.length then readAll? next else none
termination_by l.cursor.rest.length

end Layout

/-- The tokens of a text. -/
def tokens? (cs : List Char) : Option (List Token) :=
  if cs.all isPrintable then (Layout.ofText cs).readAll?.map Array.toList else none

end ConfigTree.Yaml
