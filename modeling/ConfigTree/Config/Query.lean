import ConfigTree.Config.Basic
import ConfigTree.Path.Walk
import ConfigTree.Presence

/-!
# Queries

The questions that a configuration answers. Each query names an address, or none when it is about
the whole document, and its answer is a function of the format, the tree and the tokens of the
address. `Config.ask` reads the address before it reads the document, so that a faulty path is
reported even when the document cannot be had.
-/

namespace ConfigTree

/-- A question with an answer of type `β`. -/
inductive Query : Type → Type 1 where
  /-- The value at a path, read as the default is, or else the default. -/
  | getOr {α : Type} [Readable α] (path : String) (default : α) (indices : List Nat) : Query α
  /-- The value at a path, read as an `α`. -/
  | get (α : Type) [Readable α] (path : String) (indices : List Nat) : Query (Option α)
  /-- The node at a path, if it is present. -/
  | value (path : String) (indices : List Nat) : Query (Option Tree)
  /-- Whether a node is present at a path. -/
  | has (path : String) : Query Bool
  /-- The keys of the map at a path. -/
  | keys (path : String) : Query (List String)
  /-- The node at a path, present or not. -/
  | find (path : String) (indices : List Nat) : Query (Option Tree)
  /-- The keys of the whole document. -/
  | rootKeys : Query (List String)
  /-- The whole document. -/
  | tree : Query Tree

namespace Query

variable {β : Type}

/-- The address of a query, as tokens; the whole document has the empty address. -/
def tokens : Query β → Except Error (List Path.Token)
  | @getOr _ _ path _ indices => Path.tokenize path indices
  | @get _ _ path indices => Path.tokenize path indices
  | .value path indices => Path.tokenize path indices
  | .has path => Path.tokenize path []
  | .keys path => Path.tokenize path []
  | .find path indices => Path.tokenize path indices
  | .rootKeys => .ok []
  | .tree => .ok []

/-- The answer for the node that was found in a document. -/
def answer (format : Format) (root : Tree) (found : Option Tree) : Query β → β
  | @getOr _ _ _ default _ => resolve format found default
  | @get α _ _ _ => resolve format found (none : Option α)
  | .value _ _ => present? format true found
  | .has _ => (present? format true found).isSome
  | .keys _ => (found.map Tree.keys).getD []
  | .find _ _ => found
  | .rootKeys => root.keys
  | .tree => root

/-- The answer of a query about a document. -/
def run (format : Format) (root : Tree) (q : Query β) : Except Error β :=
  q.tokens.map fun tokens => q.answer format root (Path.walk format root tokens)

end Query

namespace Config

variable {β : Type}

/-- Answers a query, and gives the configuration that remembers the tree if it had to be read. -/
def ask (fs : FileSystem) (c : Config) (q : Query β) : Except Error β × Config :=
  match q.tokens with
  | .error e => (.error e, c)
  | .ok tokens =>
    match c.load fs with
    | (.error e, c) => (.error e, c)
    | (.ok root, c) => (.ok (q.answer c.format root (Path.walk c.format root tokens)), c)

end Config

end ConfigTree
