import ConfigTree.Proofs.Xml.Grouping

/-!
# The meaning of a document

A document is a tree of elements, and its value is read off that tree by recursion: the value of an
element groups its attributes and then its parts in order (`Part.entry?`). The events of a text
spell such a tree when every start tag has its end tag (`Spells`). Reading events into frames
computes the recursion, `run?_of_spells` says how a run goes on behind any parts, and
`ofEvents_eq_ok_iff` that nothing else is read than what is well nested.
-/

namespace ConfigTree.Xml

/-- A part of an element or of a document. -/
inductive Part where
  | element (name : String) (attributes : List (String × String)) (children : List Part)
  /-- A run of text with its references replaced. -/
  | text (content : String)
  | cdata (content : String)
  /-- A declaration, an instruction or a comment. -/
  | other

/-- Whether a part is an element. -/
def Part.isElement : Part → Bool
  | .element .. => true
  | _ => false

/-- What an attribute stands for. -/
def attributeEntry (a : String × String) : String × Tree :=
  (a.1, .scalar (.infer a.2))

mutual

/-- What a part stands for: an element for its value under its name, text that is not blank for
the scalar it spells, a section for its characters. -/
def Part.entry? : Part → Option (String × Tree)
  | .element name attributes children =>
    some (name, collapse (attributes.map attributeEntry ++ Part.entries children))
  | .text content =>
    if trimmed content = "" then none
    else some (contentKey, .scalar (.infer (trimmed content)))
  | .cdata content => some (contentKey, .text content)
  | .other => none

/-- What parts stand for, in order. -/
def Part.entries : List Part → List (String × Tree)
  | [] => []
  | part :: parts => part.entry?.toList ++ Part.entries parts

end

/-- The tree of a document with the given parts; only elements count there. -/
def documentTree (parts : List Part) : Tree :=
  .map (group (Part.entries (parts.filter Part.isElement)))

/-- Events spell parts: each start tag has its end tag, with parts between them. -/
inductive Spells : List Part → List Event → Prop where
  | nil : Spells [] []
  | element {name : String} {attributes : List (String × String)} {children parts : List Part}
      {inner es : List Event} (within : Spells children inner) (behind : Spells parts es) :
      Spells (.element name attributes children :: parts)
        (.start name attributes :: (inner ++ .finish name :: es))
  | empty {name : String} {attributes : List (String × String)} {parts : List Part}
      {es : List Event} (behind : Spells parts es) :
      Spells (.element name attributes [] :: parts) (.empty name attributes :: es)
  | text {content : String} {parts : List Part} {es : List Event} (behind : Spells parts es) :
      Spells (.text content :: parts) (.text content :: es)
  | cdata {content : String} {parts : List Part} {es : List Event} (behind : Spells parts es) :
      Spells (.cdata content :: parts) (.cdata content :: es)
  | other {parts : List Part} {es : List Event} (behind : Spells parts es) :
      Spells (.other :: parts) (.other :: es)

theorem open_eq (name : String) (attributes : List (String × String)) :
    Frame.open name attributes = (Frame.ofName name).addAll (attributes.map attributeEntry) := by
  rw [Frame.addAll, List.foldl_map]
  rfl

namespace Frames

/-- Adds what parts stand for to the innermost open element; the document takes elements only. -/
def receive (fs : Frames) (parts : List Part) : Frames :=
  match fs.elements with
  | [] =>
    { fs with document := fs.document.addAll (Part.entries (parts.filter Part.isElement)) }
  | f :: rest => { fs with elements := f.addAll (Part.entries parts) :: rest }

theorem receive_nil (fs : Frames) : fs.receive [] = fs := by
  obtain ⟨document, elements⟩ := fs
  cases elements <;> rfl

theorem receive_element (fs : Frames) (name : String) (attributes : List (String × String))
    (children parts : List Part) :
    fs.receive (.element name attributes children :: parts) =
      (fs.accumulate name
        (collapse (attributes.map attributeEntry ++ Part.entries children))).receive parts := by
  obtain ⟨document, elements⟩ := fs
  cases elements <;> rfl

theorem receive_text (fs : Frames) (content : String) (parts : List Part) :
    fs.receive (.text content :: parts) =
      (if trimmed content = "" then fs
        else fs.accumulateText (.scalar (.infer (trimmed content)))).receive parts := by
  obtain ⟨document, elements⟩ := fs
  by_cases blank : trimmed content = "" <;> cases elements <;>
    simp [receive, accumulateText, Part.entries, Part.entry?, Part.isElement, blank, Frame.addAll]

theorem receive_cdata (fs : Frames) (content : String) (parts : List Part) :
    fs.receive (.cdata content :: parts) = (fs.accumulateText (.text content)).receive parts := by
  obtain ⟨document, elements⟩ := fs
  cases elements <;> rfl

theorem receive_other (fs : Frames) (parts : List Part) :
    fs.receive (.other :: parts) = fs.receive parts := by
  obtain ⟨document, elements⟩ := fs
  cases elements <;> rfl

/-- The frames with one more open element. -/
def push (fs : Frames) (f : Frame) : Frames :=
  { fs with elements := f :: fs.elements }

theorem receive_push (fs : Frames) (f : Frame) (parts : List Part) :
    (fs.push f).receive parts = fs.push (f.addAll (Part.entries parts)) := rfl

/-- The end of an element with the given pairs. -/
theorem step?_finish_push (fs : Frames) (name : String) (pairs : List (String × Tree)) :
    (fs.push ((Frame.ofName name).addAll pairs)).step? (.finish name) =
      some (fs.accumulate name (collapse pairs)) := by
  rw [← Frame.finish_addAll name]
  exact if_pos (Frame.name_addAll _ _)

theorem run?_cons_of_step? {fs fs' : Frames} {e : Event} (h : fs.step? e = some fs')
    (es : List Event) : fs.run? (e :: es) = fs'.run? es := by
  rw [run?, h]
  rfl

/-- After the events of some parts, a run goes on as if the parts had been given to the frames. -/
theorem run?_of_spells {parts : List Part} {es : List Event} (h : Spells parts es) (fs : Frames)
    (later : List Event) : fs.run? (es ++ later) = (fs.receive parts).run? later := by
  -- the frames change while an element is read, and its end tag is behind its own events
  induction h generalizing fs later with
  | nil => rw [receive_nil]; rfl
  | @element name attributes children parts inner es _ _ within behind =>
    have opened : fs.step? (.start name attributes) =
        some (fs.push (Frame.open name attributes)) := rfl
    rw [List.cons_append, run?_cons_of_step? opened, List.append_assoc, within, List.cons_append,
      receive_push, open_eq, ← Frame.addAll_append,
      run?_cons_of_step? (fs.step?_finish_push name _), behind, receive_element]
  | @empty name attributes parts es _ behind =>
    have taken : fs.step? (.empty name attributes) =
        some (fs.accumulate name (collapse (attributes.map attributeEntry ++ []))) := by
      rw [List.append_nil, ← Frame.finish_addAll name, ← open_eq]
      rfl
    rw [List.cons_append, run?_cons_of_step? taken, behind, receive_element]
    rfl
  | @text content parts es _ behind =>
    have taken : fs.step? (.text content) =
        some (if trimmed content = "" then fs
          else fs.accumulateText (.scalar (.infer (trimmed content)))) := by
      rw [step?]
      split <;> rfl
    rw [List.cons_append, run?_cons_of_step? taken, behind, receive_text]
  | cdata _ behind =>
    rw [List.cons_append, run?_cons_of_step? rfl, behind, receive_cdata]
  | other _ behind =>
    rw [List.cons_append, run?_cons_of_step? rfl, behind, receive_other]

/-- The names of the open elements. -/
def names (fs : Frames) : List String :=
  fs.elements.map Frame.name

theorem names_accumulate (fs : Frames) (key : String) (value : Tree) :
    (fs.accumulate key value).names = fs.names := by
  obtain ⟨document, elements⟩ := fs
  cases elements with
  | nil => rfl
  | cons f rest => exact congrArg (· :: rest.map Frame.name) (f.name_accumulate key value)

theorem names_accumulateText (fs : Frames) (value : Tree) :
    (fs.accumulateText value).names = fs.names := by
  obtain ⟨document, elements⟩ := fs
  cases elements with
  | nil => rfl
  | cons f rest => exact congrArg (· :: rest.map Frame.name) (f.name_accumulate contentKey value)

end Frames

/-- Events end the elements with the given names, the innermost first, each behind some parts, and
have only parts behind the last one. -/
def Closes : List String → List Event → Prop
  | [], es => ∃ parts, Spells parts es
  | name :: names, es => ∃ parts inner later,
    Spells parts inner ∧ es = inner ++ .finish name :: later ∧ Closes names later

/-- Events that spell a part may stand in front. -/
theorem Closes.append {names : List String} {es : List Event} (h : Closes names es)
    (head : List Event) (part : Part)
    (spelled : ∀ {parts es}, Spells parts es → Spells (part :: parts) (head ++ es)) :
    Closes names (head ++ es) := by
  cases names with
  | nil =>
    obtain ⟨parts, hp⟩ := h
    exact ⟨part :: parts, spelled hp⟩
  | cons name names =>
    obtain ⟨parts, inner, later, hp, rfl, closes⟩ := h
    exact ⟨part :: parts, head ++ inner, later, spelled hp, by rw [List.append_assoc], closes⟩

namespace Frames

/-- A run to the end of a document ends the elements that were open. -/
theorem closes_of_run? {fs fs' : Frames} {es : List Event} (h : fs.run? es = some fs')
    (outside : fs'.elements = []) : Closes fs.names es := by
  induction es generalizing fs with
  | nil =>
    obtain rfl : fs = fs' := Option.some.inj h
    rw [names, outside]
    exact ⟨[], .nil⟩
  | cons e es ih =>
    obtain ⟨next, step, run⟩ := Option.bind_eq_some_iff.1 h
    have closes := ih run
    cases e with
    | start name attributes =>
      obtain rfl := Option.some.inj step
      obtain ⟨children, inner, later, within, rfl, closes⟩ := closes
      have named : (Frame.open name attributes).name = name := by
        rw [open_eq]
        exact Frame.name_addAll _ _
      rw [named]
      have whole := closes.append (.start name attributes :: (inner ++ [.finish name]))
        (.element name attributes children) fun behind => by simpa using within.element behind
      rw [List.cons_append, List.append_assoc] at whole
      exact whole
    | empty name attributes =>
      obtain rfl := Option.some.inj step
      rw [names_accumulate] at closes
      exact closes.append [.empty name attributes] (.element name attributes []) .empty
    | finish name =>
      obtain ⟨document, elements⟩ := fs
      cases elements with
      | nil => cases step
      | cons f rest =>
        dsimp only [step?] at step
        split at step
        · next same =>
          obtain rfl := Option.some.inj step
          rw [names_accumulate] at closes
          exact ⟨[], [], es, .nil, by rw [same]; rfl, closes⟩
        · cases step
    | text content =>
      have kept : next.names = fs.names := by
        rw [step?] at step
        split at step
        · obtain rfl := Option.some.inj step
          rfl
        · obtain rfl := Option.some.inj step
          exact names_accumulateText _ _
      rw [kept] at closes
      exact closes.append [.text content] (.text content) .text
    | cdata content =>
      obtain rfl := Option.some.inj step
      rw [names_accumulateText] at closes
      exact closes.append [.cdata content] (.cdata content) .cdata
    | other =>
      obtain rfl := Option.some.inj step
      exact closes.append [.other] .other .other

theorem run?_initial_of_spells {parts : List Part} {es : List Event} (h : Spells parts es) :
    initial.run? es = some (initial.receive parts) := by
  have run := run?_of_spells h initial []
  rw [List.append_nil] at run
  exact run

end Frames

theorem entries_receive_initial (parts : List Part) :
    (Frames.initial.receive parts).document.entries =
      group (Part.entries (parts.filter Part.isElement)) :=
  (Frame.groups_addAll "" _).entries

/-- Events are read exactly when they are well nested, and the tree is then the meaning of the
parts that they spell. -/
theorem ofEvents_eq_ok_iff {size : Nat} {es : List Event} {t : Tree} :
    ofEvents size es = .ok t ↔ ∃ parts, Spells parts es ∧ t = documentTree parts := by
  constructor
  · intro read
    rw [ofEvents] at read
    cases run : Frames.initial.run? es with
    | none => rw [run] at read; cases read
    | some fs =>
      simp only [run] at read
      cases outside : fs.elements with
      | cons f rest => rw [outside] at read; cases read
      | nil =>
        rw [outside] at read
        obtain ⟨parts, spelled⟩ : ∃ parts, Spells parts es := Frames.closes_of_run? run outside
        rw [Frames.run?_initial_of_spells spelled] at run
        obtain rfl := Option.some.inj run
        obtain rfl := Except.ok.inj read
        rw [entries_receive_initial]
        exact ⟨parts, spelled, rfl⟩
  · rintro ⟨parts, spelled, rfl⟩
    rw [ofEvents, Frames.run?_initial_of_spells spelled, documentTree, ← entries_receive_initial]
    rfl

/-- An attribute and a child of one name, text beside a section, and text outside. -/
example : documentTree [.text "x", .element "a" [("k", "true")]
      [.text " y ", .element "k" [] [.text "z"], .cdata " ", .element "b" [] []]] =
    .map [("a", .map [("k", .list [.scalar (.bool true), .text "z"]),
      ("content", .list [.text "y", .text " "]), ("b", .map [])])] := by
  rfl

end ConfigTree.Xml
