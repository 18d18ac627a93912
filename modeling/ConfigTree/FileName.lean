import ConfigTree.Error
import ConfigTree.Text

/-!
# File names

File names are words of components between slashes. `FileName.extension` is what follows the
last dot of the last component, `FileName.join` places a name below a directory, and
`FileName.expand` replaces a leading `~/` by the home directory, if there is one. The format of a
document is found from its extension.
-/

namespace ConfigTree

namespace FileName

/-- The components of a name; empty ones and single dots do not count. -/
def components (name : List Char) : List (List Char) :=
  (Text.splitOn '/' name).filter fun c => c != [] && c != ['.']

/-- What follows the last dot of a component, unless the component begins with that dot. -/
def extensionOf (component : List Char) : List Char :=
  let cs := component.reverse
  match cs.dropWhile (· != '.') with
  | [] => []
  | [_] => []
  | _ => (cs.takeWhile (· != '.')).reverse

/-- The extension of a name; empty if there is none. -/
def extension (name : String) : String :=
  match (components name.toList).getLast? with
  | none => ""
  | some ['.', '.'] => ""
  | some component => .ofList (extensionOf component)

/-- The name `name` below the directory `directory`; a name that begins at the root stays. -/
def join (directory name : String) : String :=
  match name.toList with
  | '/' :: _ => name
  | _ =>
    match directory.toList.getLast? with
    | none => name
    | some '/' => directory ++ name
    | some _ => directory ++ "/" ++ name

/-- Replaces a leading `~/` by the home directory; it is a fault if that is not known. -/
def expand (home : Option String) (name : String) : Except Error String :=
  match name.toList with
  | '~' :: '/' :: rest =>
    match home with
    | some home => .ok (join home (.ofList rest))
    | none => .error (.unknownHome name)
  | _ => .ok name

end FileName

namespace Format

/-- The format of a file extension. -/
def ofExtension (extension : String) : Except Error Format :=
  match ofExtension? extension with
  | some format => .ok format
  | none => .error (.unknownExtension extension)

/-- The format of a file by its name. -/
def ofFileName (name : String) : Except Error Format :=
  ofExtension (FileName.extension name)

/-- The format that a word names, with or without dots in front and blanks around it. -/
def ofWord (word : String) : Except Error Format :=
  ofExtension (.ofList (Text.trimStart (· == '.') (Text.trim word.toList)))

end Format

end ConfigTree
