import ConfigTree.Yaml.Node

/-!
# The grammar of YAML

Nodes are read from tokens. A reader takes tokens from the front of a list; it says in its first
argument how many steps it may take, and every list of tokens is read in at most four steps for
each of them. `Node.ofTokens?` reads a single document that takes all tokens.
-/

namespace ConfigTree.Yaml

/-- A reader of tokens. -/
abbrev Reading := StateT (List Token) Option

namespace Reading

/-- The next token. -/
def peek? : Reading (Option Token) := do
  return (← get).head?

/-- Moves over the next token. -/
def skip : Reading Unit :=
  modify (List.drop 1)

/-- Moves over the next token if it is `t`, and says whether it is. -/
def accept (t : Token) : Reading Bool := do
  if (← peek?) = some t then
    skip
    return true
  else return false

/-- Moves over the token `t`. -/
def expect (t : Token) : Reading Unit := do
  if !(← accept t) then failure

/-- Reads with `r`, unless one of the tokens `ends` comes next: then a node is left out. -/
def unlessAt (ends : List Token) (r : Reading (Node String)) : Reading (Node String) := do
  match ← peek? with
  | some t => if ends.contains t then return default else r
  | none => r

end Reading

open Reading

/-- The shorthands for tags that are in force. -/
abbrev Handles := List (String × Tag)

/-- The tag of a handle and a suffix. -/
def Handles.tag? (handles : Handles) (handle : String) (suffix : Tag) : Option Tag :=
  if handle.isEmpty then some suffix else (handles.lookup handle).map (· ++ suffix)

/-- The shorthands that every document has unless it sets them. -/
def Handles.standard : Handles :=
  [("!", Tag.bare), ("!!", Tag.core "")]

/-- Reads the anchor and the tag in front of a node, in either order. -/
def label (handles : Handles) : Reading (Label String) := fun ts =>
  match ts with
  | .anchor a :: .tag h s :: ts => (handles.tag? h s).map fun t => (⟨some a, some t⟩, ts)
  | .tag h s :: .anchor a :: ts => (handles.tag? h s).map fun t => (⟨some a, some t⟩, ts)
  | .anchor a :: ts => some (⟨some a, none⟩, ts)
  | .tag h s :: ts => (handles.tag? h s).map fun t => (⟨none, some t⟩, ts)
  | ts => some (⟨none, none⟩, ts)

/-- Where a node stands. -/
inductive Place where
  | flow
  | block
  /-- A part of a block mapping, where a sequence need not be indented. -/
  | part
  deriving DecidableEq, Repr

/-- The tokens that end a part of a block mapping. -/
def partEnds : List Token := [.key, .value, .blockEnd]

mutual

/-- Reads a node. -/
def node (handles : Handles) : Nat → Place → Reading (Node String)
  | 0, _ => failure
  | n + 1, place => do
    match ← peek? with
    | some (.alias name) =>
      skip
      return .alias name
    | _ =>
      let l ← label handles
      match ← peek? with
      | some (.scalar text writing) =>
        skip
        return .scalar l text (writing == .plain)
      | some .openSequence =>
        skip
        return .sequence l (← flowItems handles n)
      | some .openMapping =>
        skip
        return .mapping l (← flowEntries handles n)
      | next =>
        if next = some .item ∧ place = .part then return .sequence l (← looseItems handles n)
        else if next = some .blockSequence ∧ place ≠ .flow then
          skip
          return .sequence l (← blockItems handles n)
        else if next = some .blockMapping ∧ place ≠ .flow then
          skip
          return .mapping l (← blockEntries handles n)
        else if l.anchor.isSome || l.tag.isSome then return .empty l
        else failure

/-- Reads the items of a block sequence and its end. -/
def blockItems (handles : Handles) : Nat → Reading (List (Node String))
  | 0 => failure
  | n + 1 => do
    if ← accept .blockEnd then return []
    else
      expect .item
      let x ← unlessAt [.item, .blockEnd] (node handles n .block)
      return x :: (← blockItems handles n)

/-- Reads the items of a sequence that is not indented. -/
def looseItems (handles : Handles) : Nat → Reading (List (Node String))
  | 0 => failure
  | n + 1 => do
    if ← accept .item then
      let x ← unlessAt (.item :: partEnds) (node handles n .block)
      return x :: (← looseItems handles n)
    else return []

/-- Reads the entries of a block mapping and its end. -/
def blockEntries (handles : Handles) : Nat → Reading (List (Node String × Node String))
  | 0 => failure
  | n + 1 => do
    if ← accept .blockEnd then return []
    else
      expect .key
      let k ← unlessAt partEnds (node handles n .part)
      let v ← if ← accept .value then unlessAt partEnds (node handles n .part) else pure default
      return (k, v) :: (← blockEntries handles n)

/-- Reads the items of a flow sequence and its end. A key among them is a mapping of one entry. A
key that is left out takes the token behind its mark with it. -/
def flowItems (handles : Handles) : Nat → Reading (List (Node String))
  | 0 => failure
  | n + 1 => do
    if ← accept .closeSequence then return []
    else
      let x ← do
        if ← accept .key then
          let k ← do
            match ← peek? with
            | some .value | some .comma | some .closeSequence =>
              skip
              pure default
            | _ => node handles n .flow
          let v ← flowValue handles n .closeSequence
          pure (.mapping ⟨none, none⟩ [(k, v)])
        else node handles n .flow
      if ← accept .comma then return x :: (← flowItems handles n)
      else
        expect .closeSequence
        return [x]

/-- Reads the entries of a flow mapping and its end. -/
def flowEntries (handles : Handles) : Nat → Reading (List (Node String × Node String))
  | 0 => failure
  | n + 1 => do
    if ← accept .closeMapping then return []
    else
      let e ← do
        if ← accept .key then
          let k ← unlessAt [.value, .comma, .closeMapping] (node handles n .flow)
          pure (k, ← flowValue handles n .closeMapping)
        else pure (← node handles n .flow, default)
      if ← accept .comma then return e :: (← flowEntries handles n)
      else
        expect .closeMapping
        return [e]

/-- Reads the value of an entry in a flow collection, if it has one. -/
def flowValue (handles : Handles) : Nat → Token → Reading (Node String)
  | 0, _ => failure
  | n + 1, close => do
    if ← accept .value then unlessAt [.comma, close] (node handles n .flow) else return default

end

/-- The directives of a document: whether it gives a version, and its shorthands for tags. -/
structure Directives where
  versioned : Bool
  handles : Handles

/-- Reads directives. The version must be 1.1 or 1.2, and nothing may be set twice. -/
def Directives.read? (d : Directives) : List Token → Option (Directives × List Token)
  | .version major minor :: ts =>
    if d.versioned || major ≠ 1 || (minor ≠ 1 && minor ≠ 2) then none
    else read? { d with versioned := true } ts
  | .shorthand handle stem :: ts =>
    if (d.handles.lookup handle).isSome then none
    else read? { d with handles := (handle, stem) :: d.handles } ts
  | ts => some (d, ts)

/-- Whether a token begins or ends a document. -/
def Token.isBoundary : Token → Bool
  | .version _ _ => true
  | .shorthand _ _ => true
  | .documentStart => true
  | .documentEnd => true
  | _ => false

/-- Reads a document. One that begins with directives or a start mark may be empty, and so is a
text without any token. -/
def document (steps : Nat) : Reading (Node String) := do
  match ← peek? with
  | none => return default
  | some t =>
    if t.isBoundary && t ≠ .documentEnd then
      let d ← Directives.read? ⟨false, []⟩
      expect .documentStart
      match ← peek? with
      | none => return default
      | some t =>
        if t.isBoundary then return default
        else node (d.handles ++ Handles.standard) steps .block
    else node Handles.standard steps .block

/-- The single document that tokens make up. -/
def Node.ofTokens? (ts : List Token) : Option (Node String) :=
  match (document (4 * ts.length)).run ts with
  | some (x, rest) => if rest.all (· = .documentEnd) then some x else none
  | none => none

end ConfigTree.Yaml
