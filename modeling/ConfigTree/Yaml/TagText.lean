import ConfigTree.Yaml.Cursor
import ConfigTree.Yaml.Token

/-!
# Texts of tags

A tag is written in full between angle brackets, or as a handle and the rest of the tag. A handle
is an exclamation mark, possibly with a word and another exclamation mark behind it. In a tag, a
percent sign and two hexadecimal digits stand for an octet, and the octets of one character come
together.
-/

namespace ConfigTree.Yaml.TagText

/-- The characters of tags. Commas and brackets are among them only where a tag is written in
full. -/
def isPartChar (full : Bool) (c : Char) : Bool :=
  isWord c || ";/?:@&=+$.!~*\x27()".toList.contains c ||
    (full && (c == ',' || c == '[' || c == ']'))

/-- The octet that is escaped at the beginning of a text. -/
def octet? : List Char → Option Nat
  | '%' :: a :: b :: _ => Text.hexValue? [a, b]
  | _ => none

/-- The number of octets of a character, by its first one. -/
def octetCount? (first : Nat) : Option Nat :=
  if first < 0x80 then some 1
  else if first < 0xC0 then none
  else if first < 0xE0 then some 2
  else if first < 0xF0 then some 3
  else if first < 0xF8 then some 4
  else none

/-- The octets of the character that is escaped at the beginning of a text. -/
def escapedOctets? (cs : List Char) : Option (List Nat) :=
  (octet? cs).bind fun first =>
    (octetCount? first).bind fun n =>
      ((List.range (n - 1)).mapM fun i =>
        (octet? (cs.drop (3 * (i + 1)))).filter fun o => 0x80 ≤ o && o < 0xC0).map (first :: ·)

/-- The part of a tag that comes next, and how many characters it takes. -/
structure Part where
  octets : Tag
  length : Nat

/-- Puts octets that take `n` characters in front of a part. -/
def Part.append (octets : List Nat) (n : Nat) (p : Part) : Part :=
  ⟨octets.map UInt8.ofNat ++ p.octets, p.length + n⟩

/-- The tag that a part makes up; a zero octet ends it. -/
def Part.tag (p : Part) : Tag :=
  p.octets.takeWhile (· != 0)

/-- Reads the characters of a tag as far as they go. -/
def part? (full : Bool) : List Char → Option Part
  | [] => some ⟨[], 0⟩
  | c :: cs =>
    if c = '%' then
      (escapedOctets? (c :: cs)).bind fun octets =>
        let n := 3 * octets.length
        (part? full (cs.drop (n - 1))).map (Part.append octets n)
    else if isPartChar full c then (part? full cs).map (Part.append [c.toNat] 1)
    else some ⟨[], 0⟩
termination_by cs => cs.length
decreasing_by all_goals (simp only [List.length_cons, List.length_drop]; omega)

/-- Reads a part of a tag that is not empty. -/
def takePart? (full : Bool) (c : Cursor) : Option (Tag × Cursor) :=
  ((part? full c.rest).filter (0 < ·.length)).map fun p => (p.tag, c.advance p.length)

/-- The handle at the beginning of a text that begins with an exclamation mark. A word without an
exclamation mark behind it is part of the handle as well. -/
def handle (cs : List Char) : List Char :=
  let word := (cs.drop 1).takeWhile isWord
  '!' :: word ++ (if cs[word.length + 1]? == some '!' then ['!'] else [])

/-- Whether a handle is an exclamation mark, a word and an exclamation mark. -/
def isNamed (handle : List Char) : Bool :=
  1 < handle.length && handle.getLast? == some '!'

/-- Reads a tag without what may stand behind it. A single exclamation mark is a tag in full. -/
def token? (c : Cursor) : Option (Token × Cursor) :=
  if c.hasAt 1 '<' then
    (takePart? true (c.advance 2)).bind fun (tag, c) =>
      if c.has '>' then some (.tag "" tag, c.advance 1) else none
  else
    let handle := handle c.rest
    let c := c.advance handle.length
    if isNamed handle then
      (takePart? false c).map fun (suffix, c) => (.tag (String.ofList handle) suffix, c)
    else
      (part? false c.rest).map fun p =>
        let suffix := Tag.ofText (String.ofList (handle.drop 1)) ++ p.tag
        (if suffix.isEmpty then .tag "" Tag.bare else .tag "!" suffix, c.advance p.length)

/-- Reads a tag, which a gap follows or, in a flow collection, a comma. -/
def read? (inFlow : Bool) (c : Cursor) : Option (Token × Cursor) :=
  (token? c).filter fun (_, c) => c.gapAt 0 || (inFlow && c.has ',')

end ConfigTree.Yaml.TagText
