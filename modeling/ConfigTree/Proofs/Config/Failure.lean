import ConfigTree.Proofs.Config.Accessors
import ConfigTree.Proofs.Config.Lookup
import ConfigTree.Proofs.Path.Placeholders

/-!
# Failures of lookups

A configuration that has its tree answers every query about a path, unless the path has more
placeholders than the indices supplied for it (`fails_only_short_of_indices`). What the tree holds
decides which answer is given, never whether there is one (`Config.ask_eq_error_iff`).
-/

namespace ConfigTree

open ConfigTree.Path (placeholders tokenize)

variable {β : Type} {path : String} {indices : List Nat}

/-- A configuration with a tree fails where the path does, and with the same error. -/
theorem Config.ask_eq_error_iff {fs : FileSystem} {c : Config} {t : Tree} {q : Query β} {e : Error}
    (loaded : c.cached = some t) (address : q.address? = some (path, indices)) :
    (c.ask fs q).1 = .error e ↔ tokenize path indices = .error e := by
  have tokens := Query.tokens_of_address? address
  cases read : tokenize path indices with
  | error e' =>
    rw [Config.ask_of_tokens_error (tokens.trans read)]
    simp
  | ok ts =>
    rw [Config.answer_of_cached loaded (tokens.trans read)]
    simp

/-- How a path fails with indices, by itself and in the queries about it: of a value with a default
or without, of its presence and of its keys. -/
structure FailsOnlyShort (path : String) (indices : List Nat) : Prop
    extends Path.Outcome path indices where
  asked : ∀ {β : Type} (q : Query β), q.address? = some (path, indices) →
    ∀ (fs : FileSystem) (c : Config) (t : Tree), c.cached = some t →
      ((∃ e, (c.ask fs q).1 = .error e) ↔ indices ≠ [] ∧ indices.length < placeholders path) ∧
        ∀ e, (c.ask fs q).1 = .error e → tokenize path indices = .error e

/-- Indices that are too few are the only reason for which a path cannot be read, and for which a
configuration with a tree gives no answer about it. -/
theorem fails_only_short_of_indices (path : String) (indices : List Nat) :
    FailsOnlyShort path indices := by
  have alone := Path.outcome path indices
  constructor
  case toOutcome => exact alone
  case asked =>
    intro β q address fs c t loaded
    constructor
    · rw [← alone.fails_iff]
      exact exists_congr fun e => Config.ask_eq_error_iff loaded address
    · intro e failed
      exact (Config.ask_eq_error_iff loaded address).1 failed

/-- Two placeholders beside segments that only look like them. -/
example : tokenize "a#.\\#.#.x\\.#.#" [7, 8, 9] = .ok
    [.segment "a#", .segment "#", .index 7, .segment "x.#", .index 8] := rfl

end ConfigTree
