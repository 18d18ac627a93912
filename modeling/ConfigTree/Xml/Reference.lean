import ConfigTree.Decimal.Digits
import ConfigTree.Text

/-!
# Character references

Text and attribute values name characters between an ampersand and a semicolon: five by name,
every other one but NUL by its code point. `resolve?` replaces the references of a text; an
ampersand that begins no reference is a fault, a lone semicolon is not.
-/

namespace ConfigTree.Xml.Reference

/-- The character that is not NUL with code point `n`. -/
def ofCodePoint? (n : Nat) : Option Char :=
  if n = 0 then none else Text.char? n

/-- The character that a reference names. -/
def ofName? : List Char → Option Char
  | '#' :: 'x' :: cs => if cs.isEmpty then none else (Text.hexValue? cs).bind ofCodePoint?
  | '#' :: cs => (Decimal.natural? cs).bind ofCodePoint?
  | ['l', 't'] => some '<'
  | ['g', 't'] => some '>'
  | ['a', 'm', 'p'] => some '&'
  | ['a', 'p', 'o', 's'] => some '\x27'
  | ['q', 'u', 'o', 't'] => some '"'
  | _ => none

/-- Replaces references behind the beginning of one, whose characters are given with the last
one first, or outside of any. -/
def resolveAfter? : Option (List Char) → List Char → Option (List Char)
  | none, [] => some []
  | none, '&' :: cs => resolveAfter? (some []) cs
  | none, c :: cs => (resolveAfter? none cs).map (c :: ·)
  | some _, [] => none
  | some _, '&' :: _ => none
  | some name, ';' :: cs =>
    (ofName? name.reverse).bind fun c => (resolveAfter? none cs).map (c :: ·)
  | some name, c :: cs => resolveAfter? (some (c :: name)) cs

/-- Replaces the references of a text. -/
def resolve? (cs : List Char) : Option (List Char) :=
  resolveAfter? none cs

end ConfigTree.Xml.Reference
