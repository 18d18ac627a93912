import ConfigTree.Text
import ConfigTree.Yaml.Basic
import ConfigTree.Yaml.Tag

/-!
# Values of scalars

A plain scalar without a tag denotes null, a truth value or a number if its text is spelled like
one; every other scalar denotes its text. A tag of the core vocabulary demands one kind of value
and refuses a text that is not spelled like it; a local tag stays around the value; any other tag
makes the scalar a text.
-/

namespace ConfigTree.Yaml

open Binary (Double)

namespace Literal

/-- The spellings of null. -/
def isNull (text : String) : Bool :=
  ["null", "Null", "NULL", "~"].contains text

/-- The truth value that a text spells. -/
def bool? (text : String) : Option Bool :=
  if ["true", "True", "TRUE"].contains text then some true
  else if ["false", "False", "FALSE"].contains text then some false
  else none

/-- The number that a nonempty word of digits of a base up to sixteen denotes. -/
def digitsIn? (base : Nat) (cs : List Char) : Option Nat :=
  if cs.isEmpty then none
  else cs.foldlM (fun n c => ((Text.hexDigit? c).filter (· < base)).map (base * n + ·)) 0

/-- Whether a word of several digits begins with zero; such a word denotes no number. -/
def isPadded (cs : List Char) : Bool :=
  cs.head? == some '0' && 1 < cs.length && cs.all Char.isDigit

/-- The number that a text without a sign spells: digits in base ten, or in the base that the
letter behind a leading zero names. -/
def magnitude? : List Char → Option Nat
  | '0' :: 'x' :: cs => digitsIn? 16 cs
  | '0' :: 'o' :: cs => digitsIn? 8 cs
  | '0' :: 'b' :: cs => digitsIn? 2 cs
  | cs => if isPadded cs then none else Decimal.natural? cs

/-- The integer that a text spells; it has at most 128 bits. -/
def integer? : List Char → Option Int
  | '-' :: cs => ((magnitude? cs).filter (· ≤ Nat.pow 2 127)).map fun n => -(n : Int)
  | '+' :: cs => ((magnitude? cs).filter (· < Nat.pow 2 128)).map fun n => (n : Int)
  | cs => ((magnitude? cs).filter (· < Nat.pow 2 128)).map fun n => (n : Int)

/-- The integer as a value; one that does not fit in sixty-four bits is refused. -/
def ofInteger? (z : Int) : Option Yaml :=
  if -0x8000000000000000 ≤ z ∧ z ≤ 0xFFFFFFFFFFFFFFFF then some (.number (.integer z)) else none

/-- The double that a text spells. A numeral beyond the range of doubles is none. -/
def double? (text : String) : Option Double :=
  if [".inf", ".Inf", ".INF", "+.inf", "+.Inf", "+.INF"].contains text then
    some (.infinity false)
  else if ["-.inf", "-.Inf", "-.INF"].contains text then some (.infinity true)
  else if [".nan", ".NaN", ".NAN"].contains text then some .nan
  else ((Decimal.Numeral.read? text.toList).map Double.ofNumeral).filter Double.isFinite

/-- The value of a plain scalar without a tag. -/
def plain? (text : String) : Option Yaml :=
  if text.isEmpty || isNull text then some .null
  else match bool? text with
    | some b => some (.bool b)
    | none =>
      match integer? text.toList with
      | some z => ofInteger? z
      | none =>
        if isPadded (Decimal.Numeral.takeSign text.toList).2 then some (.string text)
        else match double? text with
          | some x => some (.number (.double x))
          | none => some (.string text)

/-- The value of a scalar whose tag does not count. -/
def untagged? (plain : Bool) (text : String) : Option Yaml :=
  if plain then plain? text else some (.string text)

end Literal

/-- The value of a scalar. -/
def ofScalar? (tag : Option Tag) (plain : Bool) (text : String) : Option Yaml :=
  match tag with
  | none => Literal.untagged? plain text
  | some tag =>
    if tag = Tag.core "bool" then (Literal.bool? text).map .bool
    else if tag = Tag.core "int" then (Literal.integer? text.toList).bind Literal.ofInteger?
    else if tag = Tag.core "float" then
      (Literal.double? text).map fun x => .number (.double x)
    else if tag = Tag.core "null" then if Literal.isNull text then some .null else none
    else match tag.localName? with
      | some name => (Literal.untagged? plain text).map (.tagged name)
      | none => Literal.untagged? (plain && tag.isLocal) text

end ConfigTree.Yaml
