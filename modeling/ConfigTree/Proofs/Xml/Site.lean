import ConfigTree.Proofs.Path.Difference
import ConfigTree.Proofs.Xml.Meaning

/-!
# Places in a document

A `Site` is a place for an element in a document, with everything that stands around it.
`Site.address` says with which steps the value of the element is reached in the tree of the
document: at each level a key, and a position behind it if the key comes more than once there. An
element that holds nothing but content has the content for its value, so that there is no step by
the key of content from it.

The trees of two documents with other elements in one place differ at its address only
(`Site.differAt_document`). The address ends in the name of the element if nothing else around the
place has that name (`Site.address_of_isFree`).
-/

namespace ConfigTree.Xml

open ConfigTree.Path (Step DifferAt)
open Entries (firstKeys)

/-- The name of an element. -/
def Part.name? : Part → Option String
  | .element name _ _ => some name
  | _ => none

/-- The steps from gathered values to one of them. -/
def placeAmong : List Tree → List Tree → List Step
  | [], [] => []
  | before, _ => [.position before.length]

/-- The steps from grouped pairs to the value of one of them. -/
def placeInGroup (key : String) (before behind : List (String × Tree)) : List Step :=
  .key key :: placeAmong (valuesUnder key before) (valuesUnder key behind)

/-- The steps from the value of an element to the value of one of its pairs. -/
def placeInElement (key : String) (before behind : List (String × Tree)) : List Step :=
  if key = contentKey ∧ ∀ p ∈ before ++ behind, p.1 = contentKey then
    placeAmong (valuesUnder key before) (valuesUnder key behind)
  else placeInGroup key before behind

/-- A place for an element: between parts of the document itself, or between the parts of another
element that has its place. -/
inductive Site where
  | top (before behind : List Part)
  | within (outer : Site) (name : String) (attributes : List (String × String))
    (before behind : List Part)

namespace Site

/-- The parts of the document, with an element in the place. -/
def document : Site → Part → List Part
  | top before behind, part => before ++ part :: behind
  | within outer name attributes before behind, part =>
    outer.document (.element name attributes (before ++ part :: behind))

/-- The steps that lead to the value of an element in the place. -/
def address : Site → String → List Step
  | top before behind, key =>
    placeInGroup key (Part.entries (before.filter Part.isElement))
      (Part.entries (behind.filter Part.isElement))
  | within outer name attributes before behind, key =>
    outer.address name ++ placeInElement key
      (attributes.map attributeEntry ++ Part.entries before) (Part.entries behind)

/-- No element beside the place has the name, and no attribute of the element around it. -/
def IsFree (name : String) : Site → Prop
  | top before behind => ∀ part ∈ before ++ behind, part.name? ≠ some name
  | within _ _ attributes before behind =>
    (∀ part ∈ before ++ behind, part.name? ≠ some name) ∧ name ∉ attributes.map Prod.fst

end Site

variable {key name : String} {u u' : Tree}

theorem entries_append (parts later : List Part) :
    Part.entries (parts ++ later) = Part.entries parts ++ Part.entries later := by
  induction parts with
  | nil => rfl
  | cons part parts ih => rw [List.cons_append, Part.entries, Part.entries, ih, List.append_assoc]

theorem entries_around {part : Part} (stands : part.entry? = some (key, u))
    (before behind : List Part) : Part.entries (before ++ part :: behind) =
      Part.entries before ++ (key, u) :: Part.entries behind := by
  rw [entries_append, Part.entries, stands]
  rfl

theorem mem_entries {p : String × Tree} {parts : List Part} :
    p ∈ Part.entries parts ↔ ∃ part ∈ parts, part.entry? = some p := by
  induction parts with
  | nil => simp [Part.entries]
  | cons part parts ih => simp [Part.entries, ih]

/-- An element stands under its name, and everything else for a scalar that is content. -/
theorem key_of_entry? {part : Part} {p : String × Tree} (stands : part.entry? = some p) :
    part.name? = some p.1 ∨ p.1 = contentKey ∧ ∃ s, p.2 = .scalar s := by
  cases part with
  | element name attributes children =>
    obtain rfl := Option.some.inj stands
    exact .inl rfl
  | text content =>
    rw [Part.entry?] at stands
    split at stands
    · cases stands
    · obtain rfl := Option.some.inj stands
      exact .inr ⟨rfl, _, rfl⟩
  | cdata content =>
    obtain rfl := Option.some.inj stands
    exact .inr ⟨rfl, _, rfl⟩
  | other => cases stands

/-- Nothing stands under a name that no element has, unless it is the key of content. -/
theorem valuesUnder_entries {parts : List Part} (not_content : name ≠ contentKey)
    (free : ∀ part ∈ parts, part.name? ≠ some name) :
    valuesUnder name (Part.entries parts) = [] := by
  rw [valuesUnder_eq_nil_iff, Entries.mem_firstKeys]
  intro member
  obtain ⟨p, stands, rfl⟩ := List.mem_map.1 member
  obtain ⟨part, here, stands⟩ := mem_entries.1 stands
  rcases key_of_entry? stands with named | ⟨content, -⟩
  · exact free part here named
  · exact not_content content

theorem valuesUnder_attributes {attributes : List (String × String)}
    (free : name ∉ attributes.map Prod.fst) :
    valuesUnder name (attributes.map attributeEntry) = [] := by
  rw [valuesUnder_eq_nil_iff, Entries.mem_firstKeys, List.map_map]
  exact free

theorem differAt_gather (before behind : List Tree) (u u' : Tree) :
    DifferAt u u' (placeAmong before behind) (gather (before ++ u :: behind))
      (gather (before ++ u' :: behind)) := by
  by_cases alone : before = [] ∧ behind = []
  · obtain ⟨rfl, rfl⟩ := alone
    exact .here
  · have several : placeAmong before behind = [.position before.length] := by
      rw [placeAmong]
      rintro rfl rfl
      exact alone ⟨rfl, rfl⟩
    have length (t : Tree) : 2 ≤ (before ++ t :: behind).length := by
      have count : 1 ≤ before.length + behind.length := by
        rw [← List.length_append, Nat.one_le_iff_ne_zero, ne_eq, List.length_eq_zero_iff,
          List.append_eq_nil_iff]
        exact alone
      rw [List.length_append, List.length_cons]
      omega
    rw [several, gather_eq_list (length u), gather_eq_list (length u')]
    refine .position (by simp) (by simp) ?_ .here
    intro m other
    simp only [List.getElem?_append, List.getElem?_cons]
    grind

theorem differAt_group (key : String) (before behind : List (String × Tree)) (u u' : Tree) :
    DifferAt u u' (placeInGroup key before behind) (.map (group (before ++ (key, u) :: behind)))
      (.map (group (before ++ (key, u') :: behind))) := by
  have found (t : Tree) : Entries.find? key (group (before ++ (key, t) :: behind)) =
      some (gather (valuesUnder key before ++ t :: valuesUnder key behind)) := by
    rw [find?_group, valuesUnder_append, valuesUnder_cons, if_pos rfl, if_neg (by simp)]
  refine .key (found u) (found u') ?_ (differAt_gather _ _ u u')
  intro k other
  simp only [find?_group, valuesUnder_append, valuesUnder_cons, if_neg (Ne.symm other)]

theorem differAt_collapse (key : String) (before behind : List (String × Tree)) (u u' : Tree) :
    DifferAt u u' (placeInElement key before behind) (collapse (before ++ (key, u) :: behind))
      (collapse (before ++ (key, u') :: behind)) := by
  have content (t : Tree) : firstKeys (before ++ (key, t) :: behind) = [contentKey] ↔
      key = contentKey ∧ ∀ p ∈ before ++ behind, p.1 = contentKey := by
    rw [Entries.firstKeys_eq_singleton_iff, and_iff_right (by simp)]
    simp only [List.forall_mem_append, List.forall_mem_cons]
    exact and_left_comm
  rw [placeInElement, collapse, collapse]
  simp only [content]
  split
  · next only =>
    obtain ⟨rfl, -⟩ := only
    simp only [valuesUnder_append, valuesUnder_cons, if_true]
    exact differAt_gather _ _ u u'
  · exact differAt_group key before behind u u'

namespace Site

/-- The trees of two documents with other elements in one place differ there only. -/
theorem differAt_document (site : Site) {part part' : Part} (element : part.isElement = true)
    (element' : part'.isElement = true) (stands : part.entry? = some (key, u))
    (stands' : part'.entry? = some (key, u')) :
    DifferAt u u' (site.address key) (documentTree (site.document part))
      (documentTree (site.document part')) := by
  induction site generalizing part part' key u u' with
  | top before behind =>
    simp only [document, documentTree, List.filter_append, List.filter_cons, element, element',
      if_true, entries_around stands, entries_around stands']
    exact differAt_group _ _ _ u u'
  | within outer name attributes before behind ih =>
    have around (part : Part) : Part.entry? (.element name attributes (before ++ part :: behind)) =
        some (name, collapse (attributes.map attributeEntry ++
          Part.entries (before ++ part :: behind))) := rfl
    refine (ih rfl rfl (around part) (around part')).trans ?_
    rw [entries_around stands, entries_around stands', ← List.append_assoc, ← List.append_assoc]
    exact differAt_collapse _ _ _ u u'

/-- Under a free name an element stands alone. -/
theorem address_of_isFree {site : Site} (not_content : name ≠ contentKey)
    (free : site.IsFree name) : ∃ steps, site.address name = steps ++ [.key name] := by
  cases site with
  | top before behind =>
    have front : valuesUnder name (Part.entries (before.filter Part.isElement)) = [] :=
      valuesUnder_entries not_content fun part member =>
        free part (List.mem_append_left _ (List.mem_filter.1 member).1)
    have back : valuesUnder name (Part.entries (behind.filter Part.isElement)) = [] :=
      valuesUnder_entries not_content fun part member =>
        free part (List.mem_append_right _ (List.mem_filter.1 member).1)
    refine ⟨[], ?_⟩
    rw [address, placeInGroup, front, back]
    rfl
  | within outer around attributes before behind =>
    obtain ⟨beside, no_attribute⟩ := free
    have front : valuesUnder name (Part.entries before) = [] :=
      valuesUnder_entries not_content fun part member =>
        beside part (List.mem_append_left _ member)
    have back : valuesUnder name (Part.entries behind) = [] :=
      valuesUnder_entries not_content fun part member =>
        beside part (List.mem_append_right _ member)
    refine ⟨outer.address around, ?_⟩
    rw [address, placeInElement, if_neg fun only => not_content only.1, placeInGroup,
      valuesUnder_append, valuesUnder_attributes no_attribute, front, back]
    rfl

end Site

end ConfigTree.Xml
