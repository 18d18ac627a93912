import ConfigTree.Yaml.Cursor

/-!
# Quoted scalars

A quoted scalar is a sequence of words with runs of blanks and line breaks between them, up to
the closing quote. Between apostrophes, two of them stand for one. Between double quotes a
backslash begins an escape, and before a line break it joins two lines.
-/

namespace ConfigTree.Yaml.QuotedText

/-- The two kinds of quotes. -/
inductive Quote where
  | single
  | double
  deriving DecidableEq, Repr

/-- The character of a quote. -/
def Quote.char : Quote → Char
  | .single => '\x27'
  | .double => '"'

/-- The character that a one-letter escape stands for. -/
def escaped? : Char → Option Char
  | '0' => some '\x00'
  | 'a' => some '\x07'
  | 'b' => some '\x08'
  | 't' => some '\t'
  | '\t' => some '\t'
  | 'n' => some '\n'
  | 'v' => some '\x0b'
  | 'f' => some '\x0c'
  | 'r' => some '\r'
  | 'e' => some '\x1b'
  | ' ' => some ' '
  | '"' => some '"'
  | '/' => some '/'
  | '\\' => some '\\'
  | 'N' => some '\u0085'
  | '_' => some '\u00a0'
  | 'L' => some '\u2028'
  | 'P' => some '\u2029'
  | _ => none

/-- The number of hexadecimal digits behind the letter of an escape by code point. -/
def digitCount? : Char → Option Nat
  | 'x' => some 2
  | 'u' => some 4
  | 'U' => some 8
  | _ => none

/-- The character whose code point is written in the first `n` characters. -/
def codePoint? (n : Nat) (cs : List Char) : Option Char :=
  if cs.length < n then none else (Text.hexValue? (cs.take n)).bind Text.char?

/-- A word of a quoted scalar, and how many characters it takes in the text. -/
structure Word where
  text : List Char
  length : Nat

/-- Puts a character that takes `n` characters in the text in front of a word. -/
def Word.cons (c : Char) (n : Nat) (w : Word) : Word :=
  ⟨c :: w.text, w.length + n⟩

/-- The word that comes next; it ends in front of a gap, the closing quote or a joined line. -/
def word? (quote : Quote) (cs : List Char) : Option Word :=
  match cs with
  | [] => some ⟨[], 0⟩
  | c :: rest =>
    if isGap c then some ⟨[], 0⟩
    else if c = quote.char then
      match quote, rest with
      | .single, '\x27' :: more => (word? quote more).map (Word.cons c 2)
      | _, _ => some ⟨[], 0⟩
    else if quote = .double ∧ c = '\\' then
      match rest with
      | [] => none
      | d :: more =>
        if isBreak d then some ⟨[], 0⟩
        else match digitCount? d with
          | some n =>
            (codePoint? n more).bind fun e => (word? quote (more.drop n)).map (Word.cons e (n + 2))
          | none => (escaped? d).bind fun e => (word? quote more).map (Word.cons e 2)
    else (word? quote rest).map (Word.cons c 1)
termination_by cs.length
decreasing_by all_goals simp_all <;> omega

/-- Whether a backslash and a line break come next. -/
def atJoin (quote : Quote) (c : Cursor) : Bool :=
  quote == .double && c.has '\\' && (c.rest.drop 1).head?.any isBreak

/-- Reads words behind the text `text` up to the closing quote. -/
def readAfter? (quote : Quote) (text : List Char) (c : Cursor) :
    Option (List Char × Cursor) :=
  if c.atDocumentMark || c.atEnd then none
  else
    match word? quote c.rest with
    | none => none
    | some word =>
      let text := text ++ word.text
      let behind := c.advance word.length
      if behind.has quote.char then some (text, behind.advance 1)
      else
        let (gap, next) :=
          if atJoin quote behind then
            let joined := (behind.advance 1).skipBreak
            (joined.run.breaks, joined.skipRun)
          else (behind.run.fold, behind.skipRun)
        if next.rest.length < c.rest.length then readAfter? quote (text ++ gap) next else none
termination_by c.rest.length

/-- Reads a quoted scalar, from the opening quote on. -/
def read? (quote : Quote) (c : Cursor) : Option (List Char × Cursor) :=
  readAfter? quote [] (c.advance 1)

end ConfigTree.Yaml.QuotedText
