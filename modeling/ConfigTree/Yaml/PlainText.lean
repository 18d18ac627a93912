import ConfigTree.Yaml.Cursor

/-!
# Plain scalars

A scalar without quotes is a sequence of words with runs of blanks and line breaks between them.
It ends in front of a comment, a document mark, a colon that a gap follows, in a flow collection
also in front of the marks of one, and in block context at the end of its indentation.
-/

namespace ConfigTree.Yaml.PlainText

/-- The marks of flow collections that end a plain scalar inside of one. -/
def isFlowMark (c : Char) : Bool :=
  c == ',' || c == '[' || c == ']' || c == '{' || c == '}'

/-- The word that comes next; it may be empty. In a flow collection a colon must not stand right
before a mark. -/
def word? (inFlow : Bool) : List Char → Option (List Char)
  | [] => some []
  | c :: cs =>
    if isGap c then some []
    else if c = ':' then
      if inFlow && cs.head?.any (fun d => isFlowMark d || d == '?') then none
      else if cs.head?.all isGap then some []
      else (word? inFlow cs).map (c :: ·)
    else if inFlow && isFlowMark c then some []
    else (word? inFlow cs).map (c :: ·)

/-- A plain scalar that has been read. -/
structure Result where
  text : List Char
  /-- Whether line breaks follow the text. -/
  endsLine : Bool
  cursor : Cursor

/-- Reads words behind the text `text` and the folded run `gap`; block lines must be indented by
`indent`. -/
def readAfter? (inFlow : Bool) (indent : Nat) (text gap : List Char) (endsLine : Bool)
    (c : Cursor) : Option Result :=
  if c.atDocumentMark || c.has '#' then some { text, endsLine, cursor := c }
  else
    match word? inFlow c.rest with
    | none => none
    | some [] => some { text, endsLine, cursor := c }
    | some word =>
      let text := text ++ gap ++ word
      let behind := c.advance word.length
      let run := behind.run
      let next := behind.skipRun
      if run.hasTabBefore indent then none
      else
        let endsLine := !run.lines.isEmpty
        if run.fold.isEmpty && !endsLine then some { text, endsLine, cursor := next }
        else if !inFlow && next.column < indent then some { text, endsLine, cursor := next }
        else if next.rest.length < c.rest.length then
          readAfter? inFlow indent text run.fold endsLine next
        else none
termination_by c.rest.length

/-- Reads a plain scalar. -/
def read? (inFlow : Bool) (indent : Nat) (c : Cursor) : Option Result :=
  readAfter? inFlow indent [] [] false c

end ConfigTree.Yaml.PlainText
