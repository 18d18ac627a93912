import ConfigTree.Decode
import ConfigTree.Files
import ConfigTree.Json.Print

/-!
# Configurations

A configuration is a document with the place it came from, its format, and the tree, once it has
been read. Opening a file fixes its name and its format; the text is read at once or when the
tree is first needed. A tree that has been read stays, and a failure to read leaves nothing
behind, so that the next need tries again.
-/

namespace ConfigTree

/-- Where a document comes from. -/
inductive Source where
  | file (name : String)
  | text (content : String)
  /-- The tree itself was given. -/
  | tree
  deriving DecidableEq, Repr

/-- A document that is being queried. -/
structure Config where
  source : Source
  format : Format
  /-- The tree, once it has been read. -/
  cached : Option Tree

namespace Config

/-- The tree of a source, read afresh. -/
def fetch (fs : FileSystem) (format : Format) : Source → Except Error Tree
  | .file name =>
    match fs.read name with
    | .ok text => decode format text
    | .error failure => .error (.unreadable name failure.message)
  | .text content => decode format content
  | .tree => .ok Tree.null

/-- The tree of a configuration, and the configuration that remembers it. -/
def load (fs : FileSystem) (c : Config) : Except Error Tree × Config :=
  match c.cached with
  | some t => (.ok t, c)
  | none =>
    match fetch fs c.format c.source with
    | .ok t => (.ok t, { c with cached := some t })
    | .error e => (.error e, c)

/-- The configuration whose tree has been read. -/
def loaded (fs : FileSystem) (c : Config) : Except Error Config :=
  match c.load fs with
  | (.ok _, c) => .ok c
  | (.error e, _) => .error e

/-- A configuration that reads a file when its tree is first needed. The format is that of the
file's extension. -/
def openLazily (fs : FileSystem) (name : String) : Except Error Config :=
  (FileName.expand fs.home name).bind fun name =>
    (Format.ofFileName name).map fun format => { source := .file name, format, cached := none }

/-- A configuration whose file has been read. -/
def openFile (fs : FileSystem) (name : String) : Except Error Config :=
  (openLazily fs name).bind (loaded fs)

/-- A configuration whose tree is that of a text. -/
def ofText (format : Format) (content : String) : Except Error Config :=
  (decode format content).map fun t => { source := .text content, format, cached := some t }

/-- A configuration with a given tree. -/
def ofTree (format : Format) (t : Tree) : Config :=
  { source := .tree, format, cached := some t }

/-- The file of a configuration that has one. -/
def fileName? (c : Config) : Option String :=
  match c.source with
  | .file name => some name
  | _ => none

/-- Whether the tree has been read. -/
def isLoaded (c : Config) : Bool :=
  c.cached.isSome

/-- The indented JSON text of a file's document. -/
def exportJson (fs : FileSystem) (name : String) : Except Error String :=
  (openFile fs name).bind fun c =>
    (c.load fs).1.map Json.prettyText

end Config

end ConfigTree
