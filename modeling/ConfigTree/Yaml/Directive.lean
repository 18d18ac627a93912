import ConfigTree.Decimal.Digits
import ConfigTree.Yaml.TagText

/-!
# Directives

A directive is a line in front of a document that begins with a percent sign. It gives the version
of YAML, or a shorthand for tags.
-/

namespace ConfigTree.Yaml.Directive

open TagText (handle isNamed takePart?)

/-- Reads the version of a `YAML` directive: two numbers of at most nine digits with a point
between them. -/
def version? (c : Cursor) : Option (Token × Cursor) :=
  let number? (c : Cursor) : Option (Nat × Cursor) :=
    let digits := c.span Char.isDigit
    if digits.isEmpty || 9 < digits.length then none
    else some (Decimal.value digits, c.advance digits.length)
  (number? (c.skip isBlank)).bind fun (major, c) =>
    if c.has '.' then
      (number? (c.advance 1)).map fun (minor, c) => (.version major minor, c)
    else none

/-- Reads the handle and the stem of a `TAG` directive. -/
def shorthand? (c : Cursor) : Option (Token × Cursor) :=
  let c := c.skip isBlank
  let handle := handle c.rest
  let behind := c.advance handle.length
  if c.has '!' && (isNamed handle || handle.length == 1) && behind.atBlank then
    (takePart? true (behind.skip isBlank)).bind fun (stem, c) =>
      if c.gapAt 0 then some (.shorthand (String.ofList handle) stem, c) else none
  else none

/-- Reads a directive up to the end of its line, from the percent sign on. -/
def read? (c : Cursor) : Option (Token × Cursor) :=
  let c := c.advance 1
  let name := c.span isWord
  let c := c.advance name.length
  let content :=
    if !c.gapAt 0 then none
    else if name = ['Y', 'A', 'M', 'L'] then version? c
    else if name = ['T', 'A', 'G'] then shorthand? c
    else none
  content.bind fun (token, c) => c.skipLine?.map fun c => (token, c)

end ConfigTree.Yaml.Directive
