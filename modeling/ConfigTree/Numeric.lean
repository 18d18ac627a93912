import ConfigTree.Decimal.Style
import ConfigTree.Tree.Basic

/-!
# Numbers in texts

The numbers that a document can denote are more than those of a tree: its integers take
sixty-four bits with a sign or without one. `Numeric.toNumber` keeps an integer in the signed
range and reads one beyond it as the nearest double.
-/

namespace ConfigTree

open Binary (Double)
open Decimal (Style)

/-- A number as it is denoted in a document. -/
inductive Numeric where
  | integer (value : Int)
  | double (value : Double)
  deriving DecidableEq, Repr

namespace Numeric

/-- The text of a number, with doubles spelled in a style. -/
def text (style : Style) : Numeric → List Char
  | .integer z => Decimal.signedDigits z
  | .double x => style.write .double x.value

/-- The number of a tree that stands for a number of a document. -/
def toNumber : Numeric → Number
  | .integer z =>
    match int64? z with
    | some i => .int i
    | none => .float (.ofInt z)
  | .double x => .float x

end Numeric

end ConfigTree
