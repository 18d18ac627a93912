import ConfigTree.Error
import ConfigTree.Tree.Infer
import ConfigTree.Xml.Event
import ConfigTree.Xml.Frame

/-!
# XML documents

Events are read one after the other into frames: one for the document and one for each element
that is open. An element that ends is added to the frame around it under its name. Attributes and
text are inferred, sections are not; blank text and text outside of elements is nothing. A
document must end outside of every element.
-/

namespace ConfigTree.Xml

/-- The frames of a document that is being read; the innermost open element comes first. -/
structure Frames where
  document : Frame
  elements : List Frame

namespace Frames

/-- The frames of a document of which nothing has been read. -/
def initial : Frames :=
  { document := Frame.ofName "", elements := [] }

/-- Adds a value to the innermost open element, or to the document. -/
def accumulate (fs : Frames) (key : String) (value : Tree) : Frames :=
  match fs.elements with
  | [] => { fs with document := fs.document.accumulate key value }
  | f :: rest => { fs with elements := f.accumulate key value :: rest }

/-- Adds text to the innermost open element; outside of elements it is dropped. -/
def accumulateText (fs : Frames) (value : Tree) : Frames :=
  match fs.elements with
  | [] => fs
  | f :: rest => { fs with elements := f.accumulate contentKey value :: rest }

end Frames

/-- The frame of an element of which the start tag has been read. -/
def Frame.open (name : String) (attributes : List (String × String)) : Frame :=
  attributes.foldl (fun f a => f.accumulate a.1 (.scalar (Scalar.infer a.2))) (Frame.ofName name)

/-- A run of text without the blanks around it. -/
def trimmed (content : String) : String :=
  .ofList (Text.trim content.toList)

namespace Frames

/-- Reads one event; fails at an end tag that does not end the innermost open element. -/
def step? (fs : Frames) : Event → Option Frames
  | .start name attributes =>
    some { fs with elements := Frame.open name attributes :: fs.elements }
  | .empty name attributes => some (fs.accumulate name (Frame.open name attributes).finish)
  | .finish name =>
    match fs.elements with
    | [] => none
    | f :: rest =>
      if f.name = name then some ({ fs with elements := rest }.accumulate name f.finish) else none
  | .text content =>
    if trimmed content = "" then some fs
    else some (fs.accumulateText (.scalar (Scalar.infer (trimmed content))))
  | .cdata content => some (fs.accumulateText (.scalar (.text content)))
  | .other => some fs

/-- Reads events in order. -/
def run? (fs : Frames) : List Event → Option Frames
  | [] => some fs
  | e :: es => (fs.step? e).bind fun fs => run? fs es

end Frames

/-- The tree of a document of so many bytes with the given events. -/
def ofEvents (size : Nat) (es : List Event) : Except Fault Tree :=
  match Frames.initial.run? es with
  | none => .error .malformed
  | some fs =>
    match fs.elements with
    | [] => .ok (.map fs.document.entries)
    | f :: _ => .error (.unclosed f.name size)

/-- A text without a byte order mark at its beginning. -/
def withoutMark (text : String) : String :=
  match text.toList with
  | c :: cs => if c = '\ufeff' then .ofList cs else text
  | [] => text

/-- The tree of an XML document. -/
def decode (text : String) : Except Fault Tree :=
  let text := withoutMark text
  match Event.ofText? text.toList with
  | none => .error .malformed
  | some es => ofEvents text.utf8ByteSize es

end ConfigTree.Xml
