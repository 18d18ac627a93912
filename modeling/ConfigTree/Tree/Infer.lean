import ConfigTree.Text
import ConfigTree.Tree.Basic

/-!
# Scalars of untyped text

A format without typed scalars gives texts; this module says which number, flag or null such a
text stands for. `Number.ofText?` accepts every numeral, `Scalar.infer` only the plain ones and
keeps every other text as it is.
-/

namespace ConfigTree

open Binary (Double)
open Decimal (Numeral)

/-- The number that a text without blanks around it spells: a 64-bit integer if it is one,
otherwise a finite double. -/
def Number.ofText? (cs : List Char) : Option Number :=
  match (Decimal.integer? cs).bind int64? with
  | some i => some (.int i)
  | none => ((Numeral.read? cs).map Double.ofNumeral).bind fun x =>
    if x.isFinite then some (.float x) else none

/-- The flag that a text spells in any case of letters. -/
def boolOfText? (cs : List Char) : Option Bool :=
  if Text.sameLetters cs ['t', 'r', 'u', 'e'] then some true
  else if Text.sameLetters cs ['f', 'a', 'l', 's', 'e'] then some false
  else none

/-- The scalar that a text stands for: `true`, `false` and `null` in any case of letters, a
plain numeral with a finite value, and otherwise the text itself. -/
def Scalar.infer (s : String) : Scalar :=
  let cs := s.toList
  match boolOfText? cs with
  | some b => .bool b
  | none =>
    if Text.sameLetters cs ['n', 'u', 'l', 'l'] then .null
    else if Numeral.isPlain cs then
      match Number.ofText? cs with
      | some n => .number n
      | none => .text s
    else .text s

end ConfigTree
