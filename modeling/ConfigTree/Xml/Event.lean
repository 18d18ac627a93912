import ConfigTree.Xml.Reference

/-!
# Events of XML

An XML text is a sequence of tags, runs of text, and markup that carries no data. `Event.ofText?`
finds the sequence; it fails where markup is not closed or not written as XML wants. Whether tags
match is not its concern.
-/

namespace ConfigTree.Xml

/-- A piece of an XML text. -/
inductive Event where
  /-- The start of an element, with its attributes. -/
  | start (name : String) (attributes : List (String × String))
  /-- An element without content. -/
  | empty (name : String) (attributes : List (String × String))
  /-- The end of an element. -/
  | finish (name : String)
  /-- A run of text with its references replaced. -/
  | text (content : String)
  /-- A section of text that is taken as it is. -/
  | cdata (content : String)
  /-- A declaration, an instruction or a comment. -/
  | other
  deriving DecidableEq, Repr

/-- The blanks of markup. -/
def isSpace (c : Char) : Bool :=
  c == ' ' || c == '\t' || c == '\n' || c == '\r'

namespace Attribute

/-- Splits the text behind an attribute's key at its equals sign, which blanks may precede. -/
def afterEquals? (cs : List Char) : Option (List Char) :=
  match cs.dropWhile isSpace with
  | '=' :: rest => some rest
  | _ => none

/-- Splits a text at the first `quote`. -/
def untilQuote? (quote : Char) (cs : List Char) : Option (List Char × List Char) :=
  match cs.dropWhile (· != quote) with
  | [] => none
  | _ :: rest => some (cs.takeWhile (· != quote), rest)

/-- Splits off a quoted value, which blanks may precede. -/
def value? (cs : List Char) : Option (List Char × List Char) :=
  match cs.dropWhile isSpace with
  | '"' :: rest => untilQuote? '"' rest
  | '\x27' :: rest => untilQuote? '\x27' rest
  | _ => none

/-- Splits off an attribute whose key begins with `c`, as its key, its value and the rest. -/
def take? (c : Char) (cs : List Char) : Option ((String × String) × List Char) :=
  let inKey := fun c => c != '=' && !isSpace c
  (afterEquals? (cs.dropWhile inKey)).bind fun rest =>
    (value? rest).bind fun (value, rest) =>
      (Reference.resolve? value).map fun value =>
        ((.ofList (c :: cs.takeWhile inKey), .ofList value), rest)

theorem length_afterEquals? {cs rest : List Char} (h : afterEquals? cs = some rest) :
    rest.length ≤ cs.length := by
  unfold afterEquals? at h
  split at h
  · next r hr =>
    obtain rfl := Option.some.inj h
    have := Text.length_dropWhile_le isSpace cs
    rw [hr] at this
    simp only [List.length_cons] at this
    omega
  · simp at h

theorem length_untilQuote? {quote : Char} {cs value rest : List Char}
    (h : untilQuote? quote cs = some (value, rest)) : rest.length ≤ cs.length := by
  unfold untilQuote? at h
  split at h
  · simp at h
  · next c r hr =>
    obtain ⟨-, rfl⟩ : _ ∧ r = rest := by simpa using h
    have := Text.length_dropWhile_le (· != quote) cs
    rw [hr] at this
    simp only [List.length_cons] at this
    omega

theorem length_value? {cs value rest : List Char} (h : value? cs = some (value, rest)) :
    rest.length ≤ cs.length := by
  have hle := Text.length_dropWhile_le isSpace cs
  unfold value? at h
  split at h
  · next r hr =>
    have := length_untilQuote? h
    rw [hr, List.length_cons] at hle
    omega
  · next r hr =>
    have := length_untilQuote? h
    rw [hr, List.length_cons] at hle
    omega
  · simp at h

/-- An attribute takes its first character and more. -/
theorem length_take? {c : Char} {cs rest : List Char} {a : String × String}
    (h : take? c cs = some (a, rest)) : rest.length ≤ cs.length := by
  unfold take? at h
  obtain ⟨r₁, h₁, h⟩ := Option.bind_eq_some_iff.1 h
  obtain ⟨⟨v, r₂⟩, h₂, h⟩ := Option.bind_eq_some_iff.1 h
  obtain ⟨_, -, h⟩ := Option.map_eq_some_iff.1 h
  obtain ⟨-, rfl⟩ : _ ∧ r₂ = rest := by simpa using h
  have h₃ := Text.length_dropWhile_le (fun c => c != '=' && !isSpace c) cs
  have h₄ := length_afterEquals? h₁
  have h₅ : r₂.length ≤ r₁.length := length_value? h₂
  omega

/-- The attributes that fill a text, with blanks between them or none. -/
def all? (cs : List Char) : Option (List (String × String)) :=
  match _hs : cs.dropWhile isSpace with
  | [] => some []
  | c :: rest =>
    match _ht : take? c rest with
    | none => none
    | some (a, rest) => (all? rest).map (a :: ·)
termination_by cs.length
decreasing_by
  have h₁ := length_take? _ht
  have h₂ := Text.length_dropWhile_le isSpace cs
  rw [_hs] at h₂
  simp only [List.length_cons] at h₂
  omega

/-- The attributes of a tag; no two may have one key. -/
def distinct? (cs : List Char) : Option (List (String × String)) :=
  (all? cs).filter fun attributes => (attributes.map Prod.fst).Nodup

end Attribute

namespace Markup

/-- Splits a text at the first `>` for which the characters before it, the last one first, are
closed. -/
def until? (closed : List Char → Bool) (seen : List Char) :
    List Char → Option (List Char × List Char)
  | [] => none
  | c :: cs =>
    if c = '>' ∧ closed seen then some (seen.reverse, cs) else until? closed (c :: seen) cs

/-- Splits a tag at its end; a `>` inside quotes does not end it. -/
def tagEnd? (quote : Option Char) : List Char → Option (List Char × List Char)
  | [] => none
  | c :: cs =>
    match quote with
    | some q => (tagEnd? (if c = q then none else some q) cs).map fun (t, rest) => (c :: t, rest)
    | none =>
      if c = '>' then some ([], cs)
      else
        let quote := if c = '"' ∨ c = '\x27' then some c else none
        (tagEnd? quote cs).map fun (t, rest) => (c :: t, rest)

/-- The shortest comment between its angle brackets has five characters. -/
def closesComment (seen : List Char) : Bool :=
  4 < seen.length && ['-', '-'].isPrefixOf seen

/-- A section of text ends with two square brackets. -/
def closesCdata (seen : List Char) : Bool :=
  [']', ']'].isPrefixOf seen

/-- As many brackets are closed as are opened. -/
def closesDoctype (seen : List Char) : Bool :=
  seen.count '<' == seen.count '>'

/-- An instruction ends with a question mark. -/
def closesInstruction (seen : List Char) : Bool :=
  ['?'].isPrefixOf seen

/-- What follows `head` in `cs`, in any case of letters. -/
def afterLetters? (head cs : List Char) : Option (List Char) :=
  if Text.sameLetters head (cs.take head.length) then some (cs.drop head.length) else none

/-- The event of a comment's characters between the angle brackets. -/
def comment? (content : List Char) : Option Event :=
  (Text.after? ['!', '-', '-'] content).map fun _ => .other

/-- The event of a section of text; its mark is written in capitals. -/
def cdata? (content : List Char) : Option Event :=
  (Text.after? ['!', '[', 'C', 'D', 'A', 'T', 'A', '['] content).map fun rest =>
    .cdata (.ofList (rest.take (rest.length - 2)))

/-- The event of a document type, which must be named; its mark may have letters of any case. -/
def doctype? (content : List Char) : Option Event :=
  (afterLetters? ['!', 'D', 'O', 'C', 'T', 'Y', 'P', 'E'] content).bind fun rest =>
    if rest.all isSpace then none else some .other

/-- The event of an instruction. -/
def instruction? (content : List Char) : Option Event :=
  if content.length < 2 then none else some .other

/-- The event of a start tag's characters between the angle brackets. -/
def tag? (content : List Char) : Option Event :=
  let inName := fun c => !isSpace c
  let parts := fun cs : List Char =>
    (Attribute.distinct? (cs.dropWhile inName)).map fun attributes =>
      (String.ofList (cs.takeWhile inName), attributes)
  match content.reverse with
  | '/' :: reversed => (parts reversed.reverse).map fun (name, attributes) => .empty name attributes
  | _ => (parts content).map fun (name, attributes) => .start name attributes

/-- The name in an end tag. Blanks may stand behind it, but blanks alone are a name. -/
def endName (content : List Char) : List Char :=
  if content.all isSpace then content else Text.trimEnd isSpace content

/-- The event of an end tag's characters behind the slash. -/
def endTag (content : List Char) : Event :=
  .finish (.ofList (endName content))

/-- Splits off the markup that begins with an exclamation mark. -/
def takeBang? (cs : List Char) : Option (Event × List Char) :=
  let take := fun (closed : List Char → Bool) (event? : List Char → Option Event) =>
    (until? closed [] cs).bind fun (content, rest) => (event? content).map fun e => (e, rest)
  match cs with
  | _ :: '[' :: _ => take closesCdata cdata?
  | _ :: '-' :: _ => take closesComment comment?
  | _ :: 'D' :: _ => take closesDoctype doctype?
  | _ :: 'd' :: _ => take closesDoctype doctype?
  | _ => none

/-- Splits off the markup that begins behind a `<`. -/
def take? (cs : List Char) : Option (Event × List Char) :=
  match cs with
  | [] => none
  | '!' :: _ => takeBang? cs
  | '?' :: _ =>
    (until? closesInstruction [] cs).bind fun (content, rest) =>
      (instruction? content).map fun e => (e, rest)
  | '/' :: cs => (tagEnd? none cs).map fun (content, rest) => (endTag content, rest)
  | cs => (tagEnd? none cs).bind fun (content, rest) => (tag? content).map fun e => (e, rest)

theorem length_until? {closed : List Char → Bool} {seen cs content rest : List Char}
    (h : until? closed seen cs = some (content, rest)) : rest.length < cs.length := by
  induction cs generalizing seen with
  | nil => simp [until?] at h
  | cons c cs ih =>
    simp only [until?] at h
    split at h
    · obtain ⟨-, rfl⟩ : _ ∧ cs = rest := by simpa using h
      simp
    · have := ih h
      simp only [List.length_cons]
      omega

theorem length_tagEnd? {quote : Option Char} {cs content rest : List Char}
    (h : tagEnd? quote cs = some (content, rest)) : rest.length < cs.length := by
  induction cs generalizing quote content with
  | nil => simp [tagEnd?] at h
  | cons c cs ih =>
    have step {q : Option Char}
        (h : (tagEnd? q cs).map (fun (t, rest) => (c :: t, rest)) = some (content, rest)) :
        rest.length < (c :: cs).length := by
      obtain ⟨⟨t, r⟩, ht, h⟩ := Option.map_eq_some_iff.1 h
      obtain ⟨-, rfl⟩ : _ ∧ r = rest := by simpa using h
      have := ih ht
      simp only [List.length_cons]
      omega
    simp only [tagEnd?] at h
    split at h
    · exact step h
    · split at h
      · obtain ⟨-, rfl⟩ : [] = content ∧ cs = rest := by simpa using h
        simp
      · exact step h

theorem length_of_until? {closed : List Char → Bool} {event? : List Char → Option Event}
    {cs rest : List Char} {e : Event}
    (h : (until? closed [] cs).bind (fun (content, rest) => (event? content).map fun e => (e, rest))
      = some (e, rest)) : rest.length < cs.length := by
  obtain ⟨⟨content, r⟩, hu, h⟩ := Option.bind_eq_some_iff.1 h
  obtain ⟨_, -, h⟩ := Option.map_eq_some_iff.1 h
  obtain ⟨-, rfl⟩ : _ ∧ r = rest := by simpa using h
  exact length_until? hu

/-- Markup takes at least one character behind the `<`. -/
theorem length_take? {cs rest : List Char} {e : Event} (h : take? cs = some (e, rest)) :
    rest.length < cs.length := by
  unfold take? at h
  split at h
  · simp at h
  · unfold takeBang? at h
    dsimp only at h
    split at h
    · exact length_of_until? h
    · exact length_of_until? h
    · exact length_of_until? h
    · exact length_of_until? h
    · simp at h
  · exact length_of_until? h
  · next cs =>
    obtain ⟨⟨content, r⟩, hu, h⟩ := Option.map_eq_some_iff.1 h
    obtain ⟨-, rfl⟩ : _ ∧ r = rest := by simpa using h
    have := length_tagEnd? hu
    simp only [List.length_cons]
    omega
  · obtain ⟨⟨content, r⟩, hu, h⟩ := Option.bind_eq_some_iff.1 h
    obtain ⟨_, -, h⟩ := Option.map_eq_some_iff.1 h
    obtain ⟨-, rfl⟩ : _ ∧ r = rest := by simpa using h
    exact length_tagEnd? hu

end Markup

namespace Event

/-- The event of a run of text. -/
def ofRun? (run : List Char) : Option Event :=
  (Reference.resolve? run).map fun s => .text (.ofList s)

/-- Splits off the first event: markup, or the text in front of the next `<`. -/
def take? : List Char → Option (Event × List Char)
  | [] => none
  | c :: cs =>
    if c = '<' then Markup.take? cs
    else (ofRun? (c :: cs.takeWhile (· != '<'))).map fun e => (e, cs.dropWhile (· != '<'))

theorem length_take? {cs rest : List Char} {e : Event} (h : take? cs = some (e, rest)) :
    rest.length < cs.length := by
  cases cs with
  | nil => simp [take?] at h
  | cons c cs =>
    simp only [take?] at h
    split at h
    · have := Markup.length_take? h
      simp only [List.length_cons]
      omega
    · obtain ⟨_, -, h⟩ := Option.map_eq_some_iff.1 h
      obtain ⟨-, rfl⟩ : _ ∧ cs.dropWhile (· != '<') = rest := by simpa using h
      have := Text.length_dropWhile_le (· != '<') cs
      simp only [List.length_cons]
      omega

/-- The events of a text. -/
def ofText? (cs : List Char) : Option (List Event) :=
  match _hc : cs with
  | [] => some []
  | c :: rest =>
    match _ht : take? (c :: rest) with
    | none => none
    | some (e, rest) => (ofText? rest).map (e :: ·)
termination_by cs.length
decreasing_by
  have := length_take? _ht
  simp_all

end Event

end ConfigTree.Xml
