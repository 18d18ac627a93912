import ConfigTree.Decimal.Style
import ConfigTree.Json.Basic

/-!
# Writing JSON

Two spellings of a JSON value: `compact` without any space, and `pretty` with one item or member
on a line, indented by two spaces a level; an empty collection is two brackets in both. Strings
escape quotes, backslashes and control characters and nothing else.
-/

namespace ConfigTree.Json

open Decimal (Style)

/-- The spelling of doubles: positional from `0.00001` up to `1e+16`. -/
def doubleStyle : Style :=
  { lowest := -5, highest := 16, plus := true, tie := .toEven, nan := "null", infinity := "null" }

/-- A hexadecimal digit in lower case. -/
def hexDigit (n : Nat) : Char :=
  Nat.digitChar n

/-- The spelling of a character inside a string. -/
def escapeChar (c : Char) : List Char :=
  if c = '"' then ['\\', '"']
  else if c = '\\' then ['\\', '\\']
  else if c = '\x08' then ['\\', 'b']
  else if c = '\t' then ['\\', 't']
  else if c = '\n' then ['\\', 'n']
  else if c = '\x0c' then ['\\', 'f']
  else if c = '\r' then ['\\', 'r']
  else if c.toNat < 0x20 then
    ['\\', 'u', '0', '0', hexDigit (c.toNat / 16), hexDigit (c.toNat % 16)]
  else [c]

/-- The spelling of a string with its quotes. -/
def quote (s : String) : List Char :=
  '"' :: (s.toList.flatMap escapeChar ++ ['"'])

mutual

/-- The spelling of a value without spaces. -/
def compact : Json → List Char
  | .null => ['n', 'u', 'l', 'l']
  | .bool true => ['t', 'r', 'u', 'e']
  | .bool false => ['f', 'a', 'l', 's', 'e']
  | .number n => n.text doubleStyle
  | .string s => quote s
  | .array [] => ['[', ']']
  | .array (j :: js) => '[' :: (compact j ++ compactItems js)
  | .object [] => ['{', '}']
  | .object ((k, j) :: ms) => '{' :: (quote k ++ ':' :: (compact j ++ compactMembers ms))

/-- The items behind the first one, and the end of the array. -/
def compactItems : List Json → List Char
  | [] => [']']
  | j :: js => ',' :: (compact j ++ compactItems js)

/-- The members behind the first one, and the end of the object. -/
def compactMembers : List (String × Json) → List Char
  | [] => ['}']
  | (k, j) :: ms => ',' :: (quote k ++ ':' :: (compact j ++ compactMembers ms))

end

/-- A line break and the indentation of a level. -/
def newline (level : Nat) : List Char :=
  '\n' :: List.replicate (2 * level) ' '

mutual

/-- The spelling of a value that begins at an indentation level, with a line for each part. -/
def pretty (level : Nat) : Json → List Char
  | .null => ['n', 'u', 'l', 'l']
  | .bool true => ['t', 'r', 'u', 'e']
  | .bool false => ['f', 'a', 'l', 's', 'e']
  | .number n => n.text doubleStyle
  | .string s => quote s
  | .array [] => ['[', ']']
  | .array (j :: js) =>
    '[' :: (newline (level + 1) ++ (pretty (level + 1) j ++ prettyItems level js))
  | .object [] => ['{', '}']
  | .object ((k, j) :: ms) =>
    '{' :: (newline (level + 1) ++ (quote k ++ ':' :: ' ' ::
      (pretty (level + 1) j ++ prettyMembers level ms)))

/-- The items behind the first one of an array at a level, and its end. -/
def prettyItems (level : Nat) : List Json → List Char
  | [] => newline level ++ [']']
  | j :: js => ',' :: (newline (level + 1) ++ (pretty (level + 1) j ++ prettyItems level js))

/-- The members behind the first one of an object at a level, and its end. -/
def prettyMembers (level : Nat) : List (String × Json) → List Char
  | [] => newline level ++ ['}']
  | (k, j) :: ms =>
    ',' :: (newline (level + 1) ++ (quote k ++ ':' :: ' ' ::
      (pretty (level + 1) j ++ prettyMembers level ms)))

end

/-- The compact text of a tree. -/
def compactText (t : Tree) : String :=
  .ofList (compact (ofTree t))

/-- The indented text of a tree. -/
def prettyText (t : Tree) : String :=
  .ofList (pretty 0 (ofTree t))

end ConfigTree.Json
