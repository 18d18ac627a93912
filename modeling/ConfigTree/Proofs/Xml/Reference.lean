import ConfigTree.Proofs.Decimal.Digits
import ConfigTree.Xml.Event

/-!
# Replacing references

What a text stands for when its references are replaced. `Resolves` describes it without the scan:
each reference for the character that it names, and every other character for itself
(`resolve?_eq_some_iff`). Every text can be written so that it stands for itself, with references in
place of the characters that markup takes: a run of text (`Event.take?_escape`) and the value of an
attribute (`Attribute.take?_escape`) are read back whatever characters they hold.
-/

namespace ConfigTree.Xml

namespace Reference

/-- A text stands for characters when its references are replaced. -/
inductive Resolves : List Char → List Char → Prop where
  | nil : Resolves [] []
  | plain {c : Char} {cs ds : List Char} (bare : c ≠ '&') (behind : Resolves cs ds) :
      Resolves (c :: cs) (c :: ds)
  | reference {name cs ds : List Char} {c : Char} (inside : ∀ x ∈ name, x ≠ '&' ∧ x ≠ ';')
      (named : ofName? name = some c) (behind : Resolves cs ds) :
      Resolves ('&' :: (name ++ ';' :: cs)) (c :: ds)

/-- The reference that is written for a character that markup takes. -/
def escapeChar (c : Char) : List Char :=
  match c with
  | '<' => ['&', 'l', 't', ';']
  | '>' => ['&', 'g', 't', ';']
  | '&' => ['&', 'a', 'm', 'p', ';']
  | '\x27' => ['&', 'a', 'p', 'o', 's', ';']
  | '"' => ['&', 'q', 'u', 'o', 't', ';']
  | c => [c]

/-- A text with references in place of the characters that markup takes. -/
def escape (cs : List Char) : List Char :=
  cs.flatMap escapeChar

variable {name cs ds : List Char} {c : Char}

theorem resolveAfter?_cons (no_start : c ≠ '&') (no_end : c ≠ ';') (seen cs : List Char) :
    resolveAfter? (some seen) (c :: cs) = resolveAfter? (some (c :: seen)) cs := by
  rw [resolveAfter?]
  · exact no_start
  · exact no_end

/-- The characters of a name are gathered in front of the semicolon. -/
theorem resolveAfter?_name (inside : ∀ x ∈ name, x ≠ '&' ∧ x ≠ ';') (seen cs : List Char) :
    resolveAfter? (some seen) (name ++ cs) = resolveAfter? (some (name.reverse ++ seen)) cs := by
  induction name generalizing seen with
  | nil => rfl
  | cons x name ih =>
    obtain ⟨⟨no_start, no_end⟩, rest⟩ := List.forall_mem_cons.1 inside
    rw [List.cons_append, resolveAfter?_cons no_start no_end, ih rest, List.reverse_cons,
      List.append_assoc]
    rfl

theorem resolve?_cons (bare : c ≠ '&') (cs : List Char) :
    resolve? (c :: cs) = (resolve? cs).map (c :: ·) := by
  rw [resolve?, resolveAfter?]
  · rfl
  · exact bare

theorem resolve?_reference (inside : ∀ x ∈ name, x ≠ '&' ∧ x ≠ ';') (cs : List Char) :
    resolve? ('&' :: (name ++ ';' :: cs)) =
      (ofName? name).bind fun c => (resolve? cs).map (c :: ·) := by
  rw [resolve?, resolveAfter?, resolveAfter?_name inside, resolveAfter?, List.append_nil,
    List.reverse_reverse]
  rfl

/-- What a text stands for outside of a reference, or behind the beginning of one. -/
def ResolvesAfter : Option (List Char) → List Char → List Char → Prop
  | none, cs, ds => Resolves cs ds
  | some seen, cs, ds => ∃ name rest c behind, cs = name ++ ';' :: rest ∧ ds = c :: behind ∧
      (∀ x ∈ name, x ≠ '&' ∧ x ≠ ';') ∧ ofName? (seen.reverse ++ name) = some c ∧
      Resolves rest behind

theorem resolvesAfter_of_resolveAfter? {seen : Option (List Char)}
    (h : resolveAfter? seen cs = some ds) : ResolvesAfter seen cs ds := by
  fun_induction resolveAfter? seen cs generalizing ds with
  | case1 =>
    obtain rfl := Option.some.inj h
    exact .nil
  | case2 cs ih =>
    obtain ⟨name, rest, c, behind, rfl, rfl, inside, named, later⟩ := ih h
    exact .reference inside named later
  | case3 c cs bare ih =>
    obtain ⟨behind, later, rfl⟩ := Option.map_eq_some_iff.1 h
    exact .plain bare (ih later)
  | case4 => cases h
  | case5 => cases h
  | case6 seen cs ih =>
    obtain ⟨c, named, h⟩ := Option.bind_eq_some_iff.1 h
    obtain ⟨behind, later, rfl⟩ := Option.map_eq_some_iff.1 h
    exact ⟨[], cs, c, behind, rfl, rfl, nofun, by rwa [List.append_nil], ih later⟩
  | case7 seen c cs no_start no_end ih =>
    obtain ⟨name, rest, d, behind, rfl, rfl, inside, named, later⟩ := ih h
    refine ⟨c :: name, rest, d, behind, rfl, rfl, ?_, ?_, later⟩
    · exact List.forall_mem_cons.2 ⟨⟨no_start, no_end⟩, inside⟩
    · rwa [List.reverse_cons, List.append_assoc] at named

/-- A text has its references replaced just if it stands for something, and by that. -/
theorem resolve?_eq_some_iff : resolve? cs = some ds ↔ Resolves cs ds := by
  constructor
  · exact resolvesAfter_of_resolveAfter?
  · intro h
    induction h with
    | nil => rfl
    | plain bare _ ih => rw [resolve?_cons bare, ih]; rfl
    | reference inside named _ ih => rw [resolve?_reference inside, named, Option.bind_some, ih]; rfl

/-- A text without references is left as it is. -/
theorem resolve?_of_notMem (plain : '&' ∉ cs) : resolve? cs = some cs := by
  rw [resolve?_eq_some_iff]
  induction cs with
  | nil => exact .nil
  | cons c cs ih =>
    obtain ⟨bare, rest⟩ := not_or.1 (mt List.mem_cons.2 plain)
    exact .plain (Ne.symm bare) (ih rest)

theorem ofCodePoint?_toNat (not_nul : c.toNat ≠ 0) : ofCodePoint? c.toNat = some c := by
  rw [ofCodePoint?, if_neg not_nul, Text.char?_toNat]

/-- Every character but NUL can be named by its code point. -/
theorem ofName?_codePoint (not_nul : c.toNat ≠ 0) :
    ofName? ('#' :: Decimal.digits c.toNat) = some c := by
  obtain ⟨d, ds, digits, digit⟩ := Decimal.digits_cons c.toNat
  rw [digits, ofName?]
  · rw [← digits, Decimal.natural?_digits, Option.bind_some, ofCodePoint?_toNat not_nul]
  · rintro _ ⟨⟩
    cases digit

/-- A character is written so that it stands for itself. -/
theorem escapeChar_cases (c : Char) :
    (∃ name, escapeChar c = '&' :: (name ++ [';']) ∧ (∀ x ∈ name, x.isAlpha = true) ∧
      ofName? name = some c) ∨
    escapeChar c = [c] ∧ c ∉ ['<', '>', '&', '\x27', '"'] := by
  unfold escapeChar
  split
  · exact .inl ⟨['l', 't'], rfl, by simp, rfl⟩
  · exact .inl ⟨['g', 't'], rfl, by simp, rfl⟩
  · exact .inl ⟨['a', 'm', 'p'], rfl, by simp, rfl⟩
  · exact .inl ⟨['a', 'p', 'o', 's'], rfl, by simp, rfl⟩
  · exact .inl ⟨['q', 'u', 'o', 't'], rfl, by simp, rfl⟩
  · next lt gt ampersand apostrophe quote =>
    refine .inr ⟨rfl, ?_⟩
    simp only [List.mem_cons, List.not_mem_nil, or_false, not_or]
    exact ⟨lt, gt, ampersand, apostrophe, quote⟩

theorem resolves_escape (cs : List Char) : Resolves (escape cs) cs := by
  induction cs with
  | nil => exact .nil
  | cons c cs ih =>
    rw [escape, List.flatMap_cons, ← escape]
    obtain ⟨name, written, letters, named⟩ | ⟨written, bare⟩ := escapeChar_cases c
    · have inside : ∀ x ∈ name, x ≠ '&' ∧ x ≠ ';' := by
        intro x member
        constructor <;> rintro rfl <;> cases letters _ member
      rw [written, List.cons_append, List.append_assoc]
      exact .reference inside named ih
    · rw [written]
      exact .plain (by rintro rfl; simp at bare) ih

/-- No markup and no quote is left in an escaped text. -/
theorem ne_of_mem_escape {x q : Char} (member : x ∈ escape cs) (taken : q ∈ ['<', '>', '\x27', '"']) :
    x ≠ q := by
  rintro rfl
  have sign : ∀ x ∈ ['<', '>', '\x27', '"'],
      x ≠ '&' ∧ x ≠ ';' ∧ x.isAlpha = false ∧ x ∈ ['<', '>', '&', '\x27', '"'] := by
    simp
  obtain ⟨no_start, no_end, no_letter, reserved⟩ := sign x taken
  obtain ⟨c, -, member⟩ := List.mem_flatMap.1 member
  obtain ⟨name, written, letters, -⟩ | ⟨written, bare⟩ := escapeChar_cases c
  · rw [written, List.mem_cons, List.mem_append, List.mem_singleton] at member
    rcases member with start | letter | last
    · exact no_start start
    · rw [letters _ letter] at no_letter
      cases no_letter
    · exact no_end last
  · rw [written, List.mem_singleton] at member
    exact bare (member ▸ reserved)

end Reference

open Reference (Resolves escape resolves_escape ne_of_mem_escape resolve?_eq_some_iff)

variable {c : Char} {cs ds run rest : List Char}

/-- A value in quotes is what it stands for. -/
theorem Attribute.take?_of_resolves {key : List Char} {quote : Char}
    (name : ∀ x ∈ key, x ≠ '=' ∧ isSpace x = false) (quoted : quote ∈ ['"', '\x27'])
    (inside : ∀ x ∈ cs, x ≠ quote) (resolves : Resolves cs ds) (rest : List Char) :
    Attribute.take? c (key ++ '=' :: quote :: (cs ++ quote :: rest)) =
      some ((String.ofList (c :: key), String.ofList ds), rest) := by
  have in_key : ∀ x ∈ key, (x != '=' && !isSpace x) = true := by
    intro x member
    obtain ⟨no_equals, no_space⟩ := name x member
    simp [no_equals, no_space]
  have in_value : ∀ x ∈ cs, (x != quote) = true := by
    intro x member
    simp [inside x member]
  have until_quote : Attribute.untilQuote? quote (cs ++ quote :: rest) = some (cs, rest) := by
    rw [untilQuote?, List.dropWhile_append_of_pos in_value, List.takeWhile_append_of_pos in_value,
      List.dropWhile_cons_of_neg (by simp), List.takeWhile_cons_of_neg (by simp), List.append_nil]
  have value : Attribute.value? (quote :: (cs ++ quote :: rest)) = some (cs, rest) := by
    simp only [List.mem_cons, List.not_mem_nil, or_false] at quoted
    rcases quoted with rfl | rfl
    · exact until_quote
    · exact until_quote
  have equals : Attribute.afterEquals? ('=' :: quote :: (cs ++ quote :: rest)) =
      some (quote :: (cs ++ quote :: rest)) := rfl
  simp only [Attribute.take?]
  rw [List.dropWhile_append_of_pos in_key, List.takeWhile_append_of_pos in_key,
    List.dropWhile_cons_of_neg (by simp), List.takeWhile_cons_of_neg (by simp), List.append_nil,
    equals, Option.bind_some, value, Option.bind_some, resolve?_eq_some_iff.2 resolves]
  rfl

/-- A run of text is what it stands for, up to the next tag. -/
theorem Event.take?_of_resolves (some_text : run ≠ []) (inside : ∀ x ∈ run, x ≠ '<')
    (resolves : Resolves run ds) (rest : List Char) :
    Event.take? (run ++ '<' :: rest) = some (.text (String.ofList ds), '<' :: rest) := by
  obtain ⟨c, cs, rfl⟩ := List.exists_cons_of_ne_nil some_text
  obtain ⟨first, later⟩ := List.forall_mem_cons.1 inside
  have in_run : ∀ x ∈ cs, (x != '<') = true := by
    intro x member
    simp [later x member]
  rw [List.cons_append, Event.take?, if_neg first, List.takeWhile_append_of_pos in_run,
    List.dropWhile_append_of_pos in_run, List.takeWhile_cons_of_neg (by simp),
    List.dropWhile_cons_of_neg (by simp), List.append_nil, ofRun?, resolve?_eq_some_iff.2 resolves]
  rfl

/-- Every value can be written for an attribute. -/
theorem Attribute.take?_escape {key : List Char} (name : ∀ x ∈ key, x ≠ '=' ∧ isSpace x = false)
    (ds rest : List Char) :
    Attribute.take? c (key ++ '=' :: '"' :: (escape ds ++ '"' :: rest)) =
      some ((String.ofList (c :: key), String.ofList ds), rest) :=
  take?_of_resolves name (by simp) (fun _ member => ne_of_mem_escape member (by simp))
    (resolves_escape ds) rest

/-- Every text can be written in front of a tag. -/
theorem Event.take?_escape (some_text : ds ≠ []) (rest : List Char) :
    Event.take? (escape ds ++ '<' :: rest) = some (.text (String.ofList ds), '<' :: rest) := by
  refine take?_of_resolves ?_ (fun _ member => ne_of_mem_escape member (by simp))
    (resolves_escape ds) rest
  intro empty
  have back := resolve?_eq_some_iff.2 (resolves_escape ds)
  rw [empty] at back
  exact some_text (Option.some.inj back).symm

end ConfigTree.Xml
