import ConfigTree.FileName

/-!
# Files

A file system as a value: files and directories seen from a working directory, and the home
directory, if it is known. `FileSystem.read` gives the text of a file or the reason why it cannot be
had. The root and the directories around the working directory are there; what else they hold is
taken to be absent until it is written. A place may be barred for a reason of its own, such as a
permission that is denied. Writing changes nothing where it cannot be done.
-/

namespace ConfigTree

/-- What stands at a place of the file system. -/
inductive Node where
  | file (content : ByteArray)
  | directory
  /-- Something that can be neither read nor entered, for a reason in words. -/
  | barred (reason : String)

/-- A place, as the names that lead there from the working directory. A place around the working
directory begins with as many `..` as it takes to go up, one below the root with an empty name. -/
abbrev Place := List String

namespace Place

/-- The root. -/
def root : Place := [""]

/-- Whether a place is the working directory or lies on the way up from there. -/
def isAround (place : Place) : Bool :=
  place.all (· == "..")

/-- The directory around a place; the root is around itself. -/
def parent (place : Place) : Place :=
  if place = root then root
  else if place.isAround then ".." :: place
  else place.dropLast

/-- The place from which a name goes out. -/
def origin (name : String) : Place :=
  match name.toList with
  | '/' :: _ => root
  | _ => []

end Place

/-- The files and directories seen from a working directory, and the home directory. -/
structure FileSystem where
  nodes : List (Place × Node)
  /-- The home directory, unless it cannot be told. -/
  home : Option String

/-- Why a file cannot be read. -/
inductive ReadFailure where
  | missing
  | directory
  | notDirectory
  | notText
  | nullInName
  | nameTooLong
  /-- A reason in words. -/
  | described (text : String)
  deriving DecidableEq, Repr

/-- The wording of a failure to read. -/
def ReadFailure.message : ReadFailure → String
  | .missing => "No such file or directory (os error 2)"
  | .directory => "Is a directory (os error 21)"
  | .notDirectory => "Not a directory (os error 20)"
  | .notText => "stream did not contain valid UTF-8"
  | .nullInName => "file name contained an unexpected NUL byte"
  | .nameTooLong => "File name too long (os error 36)"
  | .described text => text

namespace FileSystem

/-- The node at a place; the root and the directories around are always there. -/
def node? (fs : FileSystem) (place : Place) : Option Node :=
  if place = Place.root ∨ place.isAround then some .directory
  else (fs.nodes.find? fun p => p.1 == place).map Prod.snd

/-- The greatest number of bytes of a component of a name. -/
def maxComponent : Nat := 255

/-- The greatest number of bytes of a name. -/
def maxName : Nat := 4095

/-- Goes from a directory along the components of a name. -/
def follow (fs : FileSystem) (place : Place) : List String → Except ReadFailure Place
  | [] => .ok place
  | name :: names =>
    match fs.node? place with
    | none => .error .missing
    | some (.file _) => .error .notDirectory
    | some (.barred reason) => .error (.described reason)
    | some .directory =>
      if name = "" ∨ name = "." then follow fs place names
      else if name = ".." then follow fs place.parent names
      else if maxComponent < name.utf8ByteSize then .error .nameTooLong
      else follow fs (place ++ [name]) names

/-- The place that a name leads to. -/
def locate (fs : FileSystem) (name : String) : Except ReadFailure Place :=
  if name.toList.contains '\x00' then .error .nullInName
  else if maxName < name.utf8ByteSize then .error .nameTooLong
  else if name.isEmpty then .error .missing
  else fs.follow (Place.origin name) ((Text.splitOn '/' name.toList).map String.ofList)

/-- The text of the file with a name. -/
def read (fs : FileSystem) (name : String) : Except ReadFailure String :=
  match fs.locate name with
  | .error e => .error e
  | .ok place =>
    match fs.node? place with
    | none => .error .missing
    | some .directory => .error .directory
    | some (.barred reason) => .error (.described reason)
    | some (.file content) =>
      match String.fromUTF8? content with
      | some text => .ok text
      | none => .error .notText

/-- Puts a node at a place in the stead of what stands there. -/
def put (fs : FileSystem) (place : Place) (node : Node) : FileSystem :=
  { fs with nodes := (place, node) :: fs.nodes.filter fun p => p.1 != place }

/-- Makes the directories along the components of a name, one after the other, until something that is
no directory or a component that is too long is in the way. -/
def makeDirectories (fs : FileSystem) (place : Place) : List String → FileSystem
  | [] => fs
  | name :: names =>
    if name = ".." then makeDirectories fs place.parent names
    else
      let place := place ++ [name]
      match fs.node? place with
      | some .directory => makeDirectories fs place names
      | some (.file _) | some (.barred _) => fs
      | none =>
        if maxComponent < name.utf8ByteSize then fs
        else makeDirectories (fs.put place .directory) place names

/-- The components of a name that say where it leads. -/
def components (name : String) : List String :=
  (FileName.components name.toList).map String.ofList

/-- Makes the directory with a name and all that lead there. Behind a directory that is not there
yet a single dot names nothing, so that such a name makes only what leads there. -/
def makeDirectory (fs : FileSystem) (name : String) : FileSystem :=
  let names := components name
  let endsInDot := (Text.splitOn '/' name.toList).getLast? == some ['.']
  fs.makeDirectories (Place.origin name) (if endsInDot then names.dropLast else names)

/-- Writes a file and makes the directories that lead to it. Only a file is replaced. -/
def write (fs : FileSystem) (name : String) (content : ByteArray) : FileSystem :=
  let fs := fs.makeDirectories (Place.origin name) (components name).dropLast
  match fs.locate name with
  | .error _ => fs
  | .ok place =>
    match fs.node? place with
    | some .directory | some (.barred _) => fs
    | some (.file _) | none => fs.put place (.file content)

/-- Removes a file. -/
def remove (fs : FileSystem) (name : String) : FileSystem :=
  match fs.locate name with
  | .error _ => fs
  | .ok place =>
    match fs.node? place with
    | some (.file _) => { fs with nodes := fs.nodes.filter fun p => p.1 != place }
    | _ => fs

end FileSystem

end ConfigTree
