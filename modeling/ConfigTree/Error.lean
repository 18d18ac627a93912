import ConfigTree.Format

/-!
# Errors

What can go wrong between a path and a value: a path with too few indices, a file that cannot be
read, a document that is not well formed, a file extension that names no format. `Error.message`
is the only place where errors are worded; it appends the hint and the code of an error that has
them.
-/

namespace ConfigTree

/-- What is wrong with a document. -/
inductive Fault where
  /-- The text does not follow its format. -/
  | malformed
  /-- A mapping has a key that is itself a collection. -/
  | collectionKey
  /-- The document ends, after so many bytes, inside an element. -/
  | unclosed (name : String) (position : Nat)
  /-- A fault in words. -/
  | described (text : String)
  deriving DecidableEq, Repr

/-- The wording of a fault. -/
def Fault.message : Fault → String
  | .malformed => "the document is malformed"
  | .collectionKey => "mapping keys must be scalars"
  | .unclosed name position => s!"element <{name}> is never closed at byte {position}"
  | .described text => text

/-- What went wrong. -/
inductive Cause where
  | invalidPath (path : String) (supplied : Nat) (reason : String)
  | unreadableFile (path reason : String)
  | faultyDocument (format : Format) (fault : Fault)
  | unknownFormat (extension : String)
  deriving DecidableEq, Repr

/-- The wording of a cause. -/
def Cause.message : Cause → String
  | .invalidPath path supplied reason =>
    s!"[DOTCFG] Invalid path '{path}': {reason} (received {supplied} indices)"
  | .unreadableFile path reason => s!"[DOTCFG] File Error '{path}': {reason}"
  | .faultyDocument format fault => s!"[DOTCFG] {format.name} Parse Error: {fault.message}"
  | .unknownFormat extension => s!"[DOTCFG] Unsupported file type '{extension}'"

/-- A cause with advice for the reader and a number for programs. -/
structure Error where
  cause : Cause
  hint : Option String
  code : Option Nat
  deriving DecidableEq, Repr

namespace Error

/-- The wording of an error. -/
def message (e : Error) : String :=
  let hint := match e.hint with
    | some h => s!" Hint: {h}"
    | none => ""
  let code := match e.code with
    | some c => s!" Code: {c}"
    | none => ""
  e.cause.message ++ hint ++ code

/-- A path has more placeholders than there are indices. -/
def tooFewIndices (path : String) (indices : List Nat) : Error :=
  let shown := ", ".intercalate (indices.map toString)
  { cause := .invalidPath path indices.length
      s!"Insufficient indices supplied for '#' placeholders: [{shown}]"
    hint := some "Pass one index per '#' segment, or escape it as '\\#'"
    code := some 310 }

/-- A file name begins in the home directory, and which one that is cannot be told. -/
def unknownHome (path : String) : Error :=
  { cause := .unreadableFile path "Could not determine home directory for ~ expansion"
    hint := some "Set HOME or use an absolute path"
    code := some 300 }

/-- A file could not be read. -/
def unreadable (path reason : String) : Error :=
  { cause := .unreadableFile path s!"Failed to read file: {reason}"
    hint := some "Check that the file exists and is readable"
    code := some 301 }

/-- The code of a fault in a document of a format. -/
def documentCode : Format → Nat
  | .json => 320
  | .yaml => 321
  | .xml => 322
  | .properties => 323

/-- A document has a fault. -/
def badDocument (format : Format) (fault : Fault) : Error :=
  { cause := .faultyDocument format fault
    hint := some s!"Check that the document is valid {format.name}"
    code := some (documentCode format) }

/-- A file extension names no format. -/
def unknownExtension (extension : String) : Error :=
  { cause := .unknownFormat extension
    hint := some "Supported extensions are .json, .yaml, .yml, .xml and .properties"
    code := some 330 }

end Error

end ConfigTree
