import ConfigTree.Error
import ConfigTree.Properties.Line
import ConfigTree.Tree.Basic

/-!
# Entries of properties

A logical line that is neither blank nor a comment is an entry: a key, a separator, a value. The
key ends at the first blank, equals sign or colon that no backslash precedes. Backslashes are
resolved in keys, values and comments alike. The document is flat: every key is kept whole and
every value is a text.
-/

namespace ConfigTree.Properties

/-- What a logical line says. -/
inductive Line where
  | blank
  | comment (text : List Char)
  | entry (key value : List Char)
  deriving DecidableEq, Repr

/-- Splits a line behind its key. -/
def splitKey : List Char → List Char × List Char
  | [] => ([], [])
  | '\\' :: c :: cs =>
    let (key, rest) := splitKey cs
    ('\\' :: c :: key, rest)
  | c :: cs =>
    if isSpace c || c == ':' || c == '=' then ([], c :: cs)
    else
      let (key, rest) := splitKey cs
      (c :: key, rest)

/-- What follows the separator in front of a value: blanks around at most one colon or equals
sign. -/
def dropSeparator (cs : List Char) : List Char :=
  match cs.dropWhile isSpace with
  | ':' :: rest => rest.dropWhile isSpace
  | '=' :: rest => rest.dropWhile isSpace
  | rest => rest

/-- What a logical line says. -/
def Line.ofText (cs : List Char) : Line :=
  match cs.dropWhile isSpace with
  | [] => .blank
  | '#' :: rest => .comment (Text.trimBy isSpace rest)
  | '!' :: rest => .comment (Text.trimBy isSpace rest)
  | rest =>
    let (key, rest) := splitKey rest
    .entry key (dropSeparator rest)

/-- The code point that four characters denote: hexadecimal digits, or a plus sign and three of
them. -/
def codePoint? : List Char → Option Nat
  | '+' :: cs => Text.hexValue? cs
  | cs => Text.hexValue? cs

/-- Resolves backslashes; fails when the four characters behind `\u` are no code point. -/
def unescape? : List Char → Option (List Char)
  | [] => some []
  | '\\' :: 'u' :: a :: b :: c :: d :: cs =>
    ((codePoint? [a, b, c, d]).bind Text.char?).bind fun x => (unescape? cs).map (x :: ·)
  | '\\' :: 'u' :: _ => none
  | '\\' :: 't' :: cs => (unescape? cs).map ('\t' :: ·)
  | '\\' :: 'n' :: cs => (unescape? cs).map ('\n' :: ·)
  | '\\' :: 'f' :: cs => (unescape? cs).map ('\x0c' :: ·)
  | '\\' :: 'r' :: cs => (unescape? cs).map ('\r' :: ·)
  | '\\' :: c :: cs => (unescape? cs).map (c :: ·)
  | ['\\'] => some ['\x00']
  | c :: cs => (unescape? cs).map (c :: ·)

/-- The pairs of keys and values that a line holds: one or none. -/
def Line.pairs? : Line → Option (List (String × Tree))
  | .blank => some []
  | .comment text => (unescape? text).map fun _ => []
  | .entry key value =>
    (unescape? key).bind fun k =>
      (unescape? value).map fun v => [(.ofList k, Tree.text (.ofList v))]

/-- The pairs of the lines of a text, in order. -/
def pairs? (cs : List Char) : Option (List (String × Tree)) :=
  ((logicalLines cs).mapM fun line => (Line.ofText line).pairs?).map List.flatten

/-- Drops a byte order mark at the beginning. -/
def dropMark : List Char → List Char
  | c :: cs => if c = '\ufeff' then cs else c :: cs
  | [] => []

/-- The tree of a properties document. -/
def decode (text : String) : Except Fault Tree :=
  match pairs? (dropMark text.toList) with
  | some pairs => .ok (.map (Entries.ofPairs pairs))
  | none => .error .malformed

end ConfigTree.Properties
