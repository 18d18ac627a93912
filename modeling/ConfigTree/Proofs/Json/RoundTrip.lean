import ConfigTree.Decode
import ConfigTree.Proofs.Json.Exchange
import ConfigTree.Proofs.Json.Lexeme

/-!
# Reading back what was written: documents

The compact and the indented text of a tree have the same lexemes, and the reader puts the value
that they spell into the place where it waits for one. A tree without doubles, with unique keys and
no deeper than the reader goes is what its two texts are read into.
-/

namespace ConfigTree.Json

open Lexeme (Spelled)

mutual

/-- The lexemes of a value. -/
def lexemes : Json → List Lexeme
  | .null => [.null]
  | .bool b => [.bool b]
  | .number n => [.number n]
  | .string s => [.string s]
  | .array [] => [.openArray, .closeArray]
  | .array (j :: js) => .openArray :: (lexemes j ++ itemLexemes js)
  | .object [] => [.openObject, .closeObject]
  | .object ((k, j) :: ms) =>
    .openObject :: .string k :: .colon :: (lexemes j ++ memberLexemes ms)

/-- The lexemes of the items behind the first one, and of the end of the array. -/
def itemLexemes : List Json → List Lexeme
  | [] => [.closeArray]
  | j :: js => .comma :: (lexemes j ++ itemLexemes js)

/-- The lexemes of the members behind the first one, and of the end of the object. -/
def memberLexemes : List (String × Json) → List Lexeme
  | [] => [.closeObject]
  | (k, j) :: ms => .comma :: .string k :: .colon :: (lexemes j ++ memberLexemes ms)

end

/-- Whether a tree is no double. -/
abbrev isExact (t : Tree) : Bool :=
  !t.isFloat

theorem endsNumeral_cons {c : Char} (h : c.isDigit = false ∧ c ≠ '.' ∧ c ≠ 'e' ∧ c ≠ 'E')
    (cs : List Char) : EndsNumeral (c :: cs) := by
  intro d hd
  obtain rfl := Option.some.inj hd
  exact h

section Spelling

variable {rest : List Char} {ls : List Lexeme}

theorem spelled_newline (level : Nat) (h : Spelled rest ls) :
    Spelled (newline level ++ rest) ls := by
  apply Spelled.space rfl
  induction 2 * level with
  | zero => exact h
  | succ n ih =>
    apply Spelled.space rfl
    exact ih

theorem spelled_key (k : String) (h : Spelled rest ls) :
    Spelled (quote k ++ ':' :: rest) (.string k :: .colon :: ls) :=
  .lexeme (l := .string k) trivial (.lexeme (l := .colon) trivial h)

theorem pretty_ofScalar (level : Nat) (s : Scalar) :
    pretty level (ofScalar s) = compact (ofScalar s) := by
  cases s with
  | null => rfl
  | bool b => cases b <;> rfl
  | text s => rfl
  | number n =>
    cases n with
    | int i => rfl
    | float x =>
      simp only [ofScalar, ofNumber]
      split <;> rfl

theorem spelled_scalar (ends : EndsNumeral rest) (h : Spelled rest ls) {s : Scalar}
    (exact : isExact (.scalar s) = true) :
    Spelled (compact (ofScalar s) ++ rest) (lexemes (ofScalar s) ++ ls) := by
  cases s with
  | null => exact .lexeme (l := .null) trivial h
  | bool b => cases b with
    | true => exact .lexeme (l := .bool true) trivial h
    | false => exact .lexeme (l := .bool false) trivial h
  | text s => exact .lexeme (l := .string s) trivial h
  | number n =>
    cases n with
    | float x => cases exact
    | int i =>
      obtain ⟨low, high⟩ := toInt_mem_range i
      exact .lexeme (l := .number (.integer i.toInt)) ⟨low, high, ends⟩ h

theorem endsNumeral_compactItems (js : List Json) (rest : List Char) :
    EndsNumeral (compactItems js ++ rest) := by
  cases js with
  | nil => exact endsNumeral_cons (by decide) rest
  | cons j js => exact endsNumeral_cons (by decide) _

theorem endsNumeral_compactMembers (ms : List (String × Json)) (rest : List Char) :
    EndsNumeral (compactMembers ms ++ rest) := by
  cases ms with
  | nil => exact endsNumeral_cons (by decide) rest
  | cons m ms => exact endsNumeral_cons (by decide) _

mutual

/-- A compact text has the lexemes of its value. -/
theorem spelled_compact {rest : List Char} {ls : List Lexeme} (ends : EndsNumeral rest)
    (h : Spelled rest ls) : (t : Tree) → t.all isExact = true →
      Spelled (compact (ofTree t) ++ rest) (lexemes (ofTree t) ++ ls)
  | .scalar s, exact => spelled_scalar ends h exact
  | .list [], _ => .lexeme (l := .openArray) trivial (.lexeme (l := .closeArray) trivial h)
  | .list (t :: ts), exact => by
    obtain ⟨head, tail⟩ := Tree.allItems_cons.1 (Tree.all_list.1 exact).2
    have items := spelled_compactItems h ts tail
    have value := spelled_compact (endsNumeral_compactItems _ _) items t head
    rw [ofTree, ofItems, compact, lexemes]
    simp only [List.cons_append, List.append_assoc]
    exact .lexeme (l := .openArray) trivial value
  | .map [], _ => .lexeme (l := .openObject) trivial (.lexeme (l := .closeObject) trivial h)
  | .map ((k, t) :: es), exact => by
    obtain ⟨head, tail⟩ := Tree.allEntries_cons.1 (Tree.all_map.1 exact).2
    have members := spelled_compactMembers h es tail
    have value := spelled_compact (endsNumeral_compactMembers _ _) members t head
    rw [ofTree, ofEntries, compact, lexemes]
    simp only [List.cons_append, List.append_assoc]
    apply Spelled.lexeme (l := .openObject) trivial
    exact spelled_key k value

theorem spelled_compactItems {rest : List Char} {ls : List Lexeme} (h : Spelled rest ls) :
    (ts : List Tree) → Tree.allItems isExact ts = true →
      Spelled (compactItems (ofItems ts) ++ rest) (itemLexemes (ofItems ts) ++ ls)
  | [], _ => .lexeme (l := .closeArray) trivial h
  | t :: ts, exact => by
    obtain ⟨head, tail⟩ := Tree.allItems_cons.1 exact
    have items := spelled_compactItems h ts tail
    have value := spelled_compact (endsNumeral_compactItems _ _) items t head
    rw [ofItems, compactItems, itemLexemes]
    simp only [List.cons_append, List.append_assoc]
    exact .lexeme (l := .comma) trivial value

theorem spelled_compactMembers {rest : List Char} {ls : List Lexeme} (h : Spelled rest ls) :
    (es : List (String × Tree)) → Tree.allEntries isExact es = true →
      Spelled (compactMembers (ofEntries es) ++ rest) (memberLexemes (ofEntries es) ++ ls)
  | [], _ => .lexeme (l := .closeObject) trivial h
  | (k, t) :: es, exact => by
    obtain ⟨head, tail⟩ := Tree.allEntries_cons.1 exact
    have members := spelled_compactMembers h es tail
    have value := spelled_compact (endsNumeral_compactMembers _ _) members t head
    rw [ofEntries, compactMembers, memberLexemes]
    simp only [List.cons_append, List.append_assoc]
    apply Spelled.lexeme (l := .comma) trivial
    exact spelled_key k value

end

theorem endsNumeral_prettyItems (level : Nat) (js : List Json) (rest : List Char) :
    EndsNumeral (prettyItems level js ++ rest) := by
  cases js with
  | nil => exact endsNumeral_cons (by decide) _
  | cons j js => exact endsNumeral_cons (by decide) _

theorem endsNumeral_prettyMembers (level : Nat) (ms : List (String × Json)) (rest : List Char) :
    EndsNumeral (prettyMembers level ms ++ rest) := by
  cases ms with
  | nil => exact endsNumeral_cons (by decide) _
  | cons m ms => exact endsNumeral_cons (by decide) _

mutual

/-- An indented text has the lexemes of its value. -/
theorem spelled_pretty {rest : List Char} {ls : List Lexeme} (level : Nat)
    (ends : EndsNumeral rest) (h : Spelled rest ls) : (t : Tree) → t.all isExact = true →
      Spelled (pretty level (ofTree t) ++ rest) (lexemes (ofTree t) ++ ls)
  | .scalar s, exact => by
    rw [ofTree, pretty_ofScalar]
    exact spelled_scalar ends h exact
  | .list [], _ => .lexeme (l := .openArray) trivial (.lexeme (l := .closeArray) trivial h)
  | .list (t :: ts), exact => by
    obtain ⟨head, tail⟩ := Tree.allItems_cons.1 (Tree.all_list.1 exact).2
    have items := spelled_prettyItems level h ts tail
    have value := spelled_pretty (level + 1) (endsNumeral_prettyItems _ _ _) items t head
    rw [ofTree, ofItems, pretty, lexemes]
    simp only [List.cons_append, List.append_assoc]
    apply Spelled.lexeme (l := .openArray) trivial
    exact spelled_newline _ value
  | .map [], _ => .lexeme (l := .openObject) trivial (.lexeme (l := .closeObject) trivial h)
  | .map ((k, t) :: es), exact => by
    obtain ⟨head, tail⟩ := Tree.allEntries_cons.1 (Tree.all_map.1 exact).2
    have members := spelled_prettyMembers level h es tail
    have value := spelled_pretty (level + 1) (endsNumeral_prettyMembers _ _ _) members t head
    rw [ofTree, ofEntries, pretty, lexemes]
    simp only [List.cons_append, List.append_assoc]
    apply Spelled.lexeme (l := .openObject) trivial
    apply spelled_newline
    apply spelled_key
    exact .space rfl value

theorem spelled_prettyItems {rest : List Char} {ls : List Lexeme} (level : Nat)
    (h : Spelled rest ls) : (ts : List Tree) → Tree.allItems isExact ts = true →
      Spelled (prettyItems level (ofItems ts) ++ rest) (itemLexemes (ofItems ts) ++ ls)
  | [], _ => by
    rw [ofItems, prettyItems, List.append_assoc]
    apply spelled_newline
    exact .lexeme (l := .closeArray) trivial h
  | t :: ts, exact => by
    obtain ⟨head, tail⟩ := Tree.allItems_cons.1 exact
    have items := spelled_prettyItems level h ts tail
    have value := spelled_pretty (level + 1) (endsNumeral_prettyItems _ _ _) items t head
    rw [ofItems, prettyItems, itemLexemes]
    simp only [List.cons_append, List.append_assoc]
    apply Spelled.lexeme (l := .comma) trivial
    exact spelled_newline _ value

theorem spelled_prettyMembers {rest : List Char} {ls : List Lexeme} (level : Nat)
    (h : Spelled rest ls) : (es : List (String × Tree)) → Tree.allEntries isExact es = true →
      Spelled (prettyMembers level (ofEntries es) ++ rest) (memberLexemes (ofEntries es) ++ ls)
  | [], _ => by
    rw [ofEntries, prettyMembers, List.append_assoc]
    apply spelled_newline
    exact .lexeme (l := .closeObject) trivial h
  | (k, t) :: es, exact => by
    obtain ⟨head, tail⟩ := Tree.allEntries_cons.1 exact
    have members := spelled_prettyMembers level h es tail
    have value := spelled_pretty (level + 1) (endsNumeral_prettyMembers _ _ _) members t head
    rw [ofEntries, prettyMembers, memberLexemes]
    simp only [List.cons_append, List.append_assoc]
    apply Spelled.lexeme (l := .comma) trivial
    apply spelled_newline
    apply spelled_key
    exact .space rfl value

end

end Spelling

namespace Reader

variable {holes : List Hole}

/-- No value begins with the end of an array. -/
theorem lexemes_cons (j : Json) : ∃ l ls, lexemes j = l :: ls ∧ l ≠ .closeArray := by
  cases j with
  | array js => cases js <;> exact ⟨_, _, rfl, nofun⟩
  | object ms => cases ms <;> exact ⟨_, _, rfl, nofun⟩
  | _ => exact ⟨_, _, rfl, nofun⟩

/-- Where the first item of an array may come, a value is read as one. -/
theorem run?_firstItem (j : Json) (ls : List Lexeme) :
    run? (.firstItem holes) (lexemes j ++ ls) =
      run? (.value (.item [] :: holes)) (lexemes j ++ ls) := by
  obtain ⟨l, rest, he, hl⟩ := lexemes_cons j
  have step : step? (.firstItem holes) l = begin? (.item [] :: holes) l := by
    cases l <;> first | rfl | exact absurd rfl hl
  rw [he, List.cons_append, run?, run?, step, step?]

theorem run?_scalar (s : Scalar) (holes : List Hole) (ls : List Lexeme) :
    run? (.value holes) (lexemes (ofScalar s) ++ ls) = run? (put (ofScalar s) holes) ls := by
  cases s with
  | number n =>
    cases n with
    | int i => rfl
    | float x =>
      simp only [ofScalar, ofNumber]
      split <;> rfl
  | _ => rfl

theorem run?_openArray (shallow : holes.length < maxDepth) (ls : List Lexeme) :
    run? (.value holes) (.openArray :: ls) = run? (.firstItem holes) ls := by
  rw [run?, step?, begin?, if_pos shallow, Option.bind_some]

theorem run?_openObject (shallow : holes.length < maxDepth) (ls : List Lexeme) :
    run? (.value holes) (.openObject :: ls) = run? (.firstKey holes) ls := by
  rw [run?, step?, begin?, if_pos shallow, Option.bind_some]

mutual

/-- The lexemes of a value are read as that value. -/
theorem run?_lexemes (holes : List Hole) (ls : List Lexeme) :
    (t : Tree) → t.all Tree.hasUniqueKeys = true → t.depth + holes.length ≤ maxDepth →
      run? (.value holes) (lexemes (ofTree t) ++ ls) = run? (put (ofTree t) holes) ls
  | .scalar s, _, _ => run?_scalar s holes ls
  | .list [], _, shallow => run?_openArray (by rw [Tree.depth] at shallow; omega) _
  | .list (t :: ts), unique, shallow => by
    obtain ⟨head, tail⟩ := Tree.allItems_cons.1 (Tree.all_list.1 unique).2
    rw [Tree.depth, Tree.depthItems] at shallow
    have room : holes.length < maxDepth := by omega
    have inside : t.depth + (Hole.item [] :: holes).length ≤ maxDepth := by
      rw [List.length_cons]
      omega
    have first := run?_lexemes (.item [] :: holes) (itemLexemes (ofItems ts) ++ ls) t head inside
    have later := run?_itemLexemes [ofTree t] holes ls ts tail (by omega)
    rw [ofTree, ofItems, lexemes, List.cons_append, List.append_assoc, run?_openArray room,
      run?_firstItem]
    exact first.trans later
  | .map [], _, shallow => run?_openObject (by rw [Tree.depth] at shallow; omega) _
  | .map ((k, t) :: es), unique, shallow => by
    obtain ⟨keys, parts⟩ := Tree.all_map.1 unique
    obtain ⟨head, tail⟩ := Tree.allEntries_cons.1 parts
    rw [Tree.depth, Tree.depthEntries] at shallow
    have room : holes.length < maxDepth := by omega
    have inside : t.depth + (Hole.member [] k :: holes).length ≤ maxDepth := by
      rw [List.length_cons]
      omega
    have distinct : Entries.Unique (ofEntries ((k, t) :: es)) :=
      unique_ofEntries.2 (of_decide_eq_true keys)
    have first := run?_lexemes (.member [] k :: holes) (memberLexemes (ofEntries es) ++ ls) t head
      inside
    have later := run?_memberLexemes [(k, ofTree t)] holes ls es tail distinct (by omega)
    rw [ofTree, ofEntries, lexemes]
    simp only [List.cons_append, List.append_assoc]
    rw [run?_openObject room]
    exact first.trans later

/-- The lexemes behind some items of an array complete it. -/
theorem run?_itemLexemes (items : List Json) (holes : List Hole) (ls : List Lexeme) :
    (ts : List Tree) → Tree.allItems Tree.hasUniqueKeys ts = true →
      Tree.depthItems ts + holes.length < maxDepth →
      run? (.nextItem items holes) (itemLexemes (ofItems ts) ++ ls) =
        run? (put (.array (items.reverse ++ ofItems ts)) holes) ls
  | [], _, _ => by
    rw [ofItems, List.append_nil]
    rfl
  | t :: ts, unique, shallow => by
    obtain ⟨head, tail⟩ := Tree.allItems_cons.1 unique
    rw [Tree.depthItems] at shallow
    have inside : t.depth + (Hole.item items :: holes).length ≤ maxDepth := by
      rw [List.length_cons]
      omega
    have first := run?_lexemes (.item items :: holes) (itemLexemes (ofItems ts) ++ ls) t head inside
    have later := run?_itemLexemes (ofTree t :: items) holes ls ts tail (by omega)
    rw [List.reverse_cons, List.append_assoc] at later
    rw [ofItems, itemLexemes, List.cons_append, List.append_assoc]
    exact first.trans later

/-- The lexemes behind some members of an object complete it, if no key comes twice. -/
theorem run?_memberLexemes (members : Entries Json) (holes : List Hole) (ls : List Lexeme) :
    (es : List (String × Tree)) → Tree.allEntries Tree.hasUniqueKeys es = true →
      Entries.Unique (members ++ ofEntries es) →
      Tree.depthEntries es + holes.length < maxDepth →
      run? (.nextMember members holes) (memberLexemes (ofEntries es) ++ ls) =
        run? (put (.object (members ++ ofEntries es)) holes) ls
  | [], _, _, _ => by
    rw [ofEntries, List.append_nil]
    rfl
  | (k, t) :: es, unique, keys, shallow => by
    obtain ⟨head, tail⟩ := Tree.allEntries_cons.1 unique
    rw [Tree.depthEntries] at shallow
    have inside : t.depth + (Hole.member members k :: holes).length ≤ maxDepth := by
      rw [List.length_cons]
      omega
    have first := run?_lexemes (.member members k :: holes) (memberLexemes (ofEntries es) ++ ls) t
      head inside
    -- the key is new, so that the value comes behind the members that are there
    rw [put, Entries.insert_of_notMem keys.notMem_keys] at first
    have distinct : Entries.Unique ((members ++ [(k, ofTree t)]) ++ ofEntries es) := by
      rwa [List.append_assoc]
    have later := run?_memberLexemes (members ++ [(k, ofTree t)]) holes ls es tail distinct
      (by omega)
    rw [List.append_assoc] at later
    rw [ofEntries, memberLexemes]
    simp only [List.cons_append, List.append_assoc]
    exact first.trans later

end

end Reader

theorem isFinite_of_isExact {t : Tree} (exact : isExact t = true) : t.isFinite = true := by
  cases t with
  | scalar s =>
    cases s with
    | number n =>
      cases n with
      | int i => rfl
      | float x => cases exact
    | _ => rfl
  | list | map => rfl

/-- A tree without doubles comes back from its JSON value as it was. -/
theorem toTree_ofTree_of_isExact {t : Tree} (exact : t.all isExact = true) :
    toTree (ofTree t) = t := by
  have finite : t.all Tree.isFinite = true := Tree.all_mono (fun u => isFinite_of_isExact) t exact
  exact (toTree_ofTree t).trans (Tree.nullNonFinite_eq_self finite)

section Document

variable {t : Tree}

theorem ofLexemes?_lexemes (unique : t.all Tree.hasUniqueKeys = true)
    (shallow : t.depth ≤ Reader.maxDepth) : ofLexemes? (lexemes (ofTree t)) = some (ofTree t) := by
  have read := Reader.run?_lexemes [] [] t unique shallow
  rw [List.append_nil] at read
  rw [ofLexemes?, read]
  rfl

/-- A text with the lexemes of a tree is read into that tree. -/
theorem decode_of_spelled {cs : List Char} (exact : t.all isExact = true)
    (unique : t.all Tree.hasUniqueKeys = true) (shallow : t.depth ≤ Reader.maxDepth)
    (h : Spelled cs (lexemes (ofTree t))) : ConfigTree.decode .json (.ofList cs) = .ok t := by
  have read : decode (.ofList cs) = .ok t := by
    rw [decode, parse?, String.toList_ofList, Lexeme.ofText?_of_spelled h, Option.bind_some,
      ofLexemes?_lexemes unique shallow]
    exact congrArg Except.ok (toTree_ofTree_of_isExact exact)
  rw [ConfigTree.decode, read]
  rfl

/-- A tree without doubles, in which no map has a key twice and collections are nested no deeper
than the reader goes, is what its compact text and its indented text are read into. -/
theorem decode_compactText_prettyText (exact : t.all isExact = true)
    (unique : t.all Tree.hasUniqueKeys = true) (shallow : t.depth ≤ 127) :
    ConfigTree.decode .json (compactText t) = .ok t ∧
      ConfigTree.decode .json (prettyText t) = .ok t := by
  have compact := spelled_compact endsNumeral_nil .nil t exact
  have pretty := spelled_pretty 0 endsNumeral_nil .nil t exact
  rw [List.append_nil, List.append_nil] at compact pretty
  constructor
  · exact decode_of_spelled exact unique shallow compact
  · exact decode_of_spelled exact unique shallow pretty

/-- A tree of empty collections, keys that need escapes and the least and the greatest integer. -/
def intricate : Tree :=
  .map [
    ("", .list []),
    ("quote \" and \\", .map [("\n", .map []), ("\x00\x7f", .text "\x1f\u2028/")]),
    ("a", .list [.scalar (.number (.int Int64.minValue)), .list [.list [], .null],
      .scalar (.number (.int Int64.maxValue)), .scalar (.bool false)])]

theorem decode_compactText_prettyText_intricate :
    ConfigTree.decode .json (compactText intricate) = .ok intricate ∧
      ConfigTree.decode .json (prettyText intricate) = .ok intricate :=
  decode_compactText_prettyText (by decide) (by decide) (by decide)

end Document

end ConfigTree.Json
