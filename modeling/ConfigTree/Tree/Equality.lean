import ConfigTree.Tree.Basic

/-!
# Equality of trees

Two trees are the same when they differ at most in the order of map keys. Lists are compared by
position, maps by size and by looking up each key of the one in the other, numbers within their
kind, so that a not-a-number makes every tree that holds it differ from itself.
-/

namespace ConfigTree.Tree

mutual

/-- Equality up to the order of map keys. -/
def same : Tree → Tree → Bool
  | .scalar a, .scalar b => a.same b
  | .list as, .list bs => sameItems as bs
  | .map as, .map bs => as.length == bs.length && sameEntries as bs
  | _, _ => false

/-- Equality of lists, item by item. -/
def sameItems : List Tree → List Tree → Bool
  | [], [] => true
  | a :: as, b :: bs => a.same b && sameItems as bs
  | _, _ => false

/-- Each entry of the first map has the same value under its key in the second. -/
def sameEntries : List (String × Tree) → List (String × Tree) → Bool
  | [], _ => true
  | (k, a) :: as, bs =>
    (match Entries.find? k bs with
      | some b => a.same b
      | none => false) && sameEntries as bs

end

end ConfigTree.Tree
