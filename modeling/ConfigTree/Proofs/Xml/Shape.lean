import ConfigTree.Decode
import ConfigTree.Proofs.Tree.Shape
import ConfigTree.Proofs.Xml.Attributes

/-!
# The shape of a document's tree

Whatever an XML document says, its tree is a map, lists in it have at least two items, no map but the
root holds content alone, and no map has a key twice (`shape_of_decode`). What holds of scalars, of
lists with several items and of the maps of all elements holds of every part of the tree
(`Passes.allBelow_documentTree`); the shape is such a property. That a collection is not empty is another
one, if no element is void, so that an empty collection can be found only where the document has a
void element.
-/

namespace ConfigTree

namespace Tree

/-- Whether a tree, if it is a list, has several items. -/
def hasSeveralItems : Tree → Bool
  | .list ts => 2 ≤ ts.length
  | _ => true

/-- Whether a tree is a map with the key of content and no other key. -/
def isContentAlone : Tree → Bool
  | .map es => Entries.keys es == [Xml.contentKey]
  | _ => false

/-- An empty collection that is not an empty list is an empty map. -/
theorem eq_map_nil_of_isEmptyCollection {t : Tree} (several : t.hasSeveralItems = true)
    (empty : t.isEmptyCollection = true) : t = .map [] := by
  cases t with
  | scalar s => cases empty
  | list ts =>
    obtain rfl := List.isEmpty_iff.1 empty
    cases several
  | map es =>
    obtain rfl := List.isEmpty_iff.1 empty
    rfl

end Tree

namespace Xml

open Entries (firstKeys)

/-- A part stands among parts, or at any depth in one of them. -/
inductive Part.Within (part : Part) : List Part → Prop where
  | here {parts : List Part} (member : part ∈ parts) : Part.Within part parts
  | inside {parts children : List Part} {name : String} {attributes : List (String × String)}
      (member : .element name attributes children ∈ parts) (within : Part.Within part children) :
      Part.Within part parts

/-- What an element groups: its attributes, and then what its children stand for. -/
def elementPairs (attributes : List (String × String)) (children : List Part) :
    List (String × Tree) :=
  attributes.map attributeEntry ++ Part.entries children

/-- An element that holds nothing, neither attributes nor children that stand for something. -/
def Part.IsVoid : Part → Prop
  | .element _ attributes children => elementPairs attributes children = []
  | _ => False

/-- A test that is passed by scalars, by lists of several items, and by the map of each element in
some parts that has one. -/
structure Passes (p : Tree → Bool) (parts : List Part) : Prop where
  scalar : ∀ s, p (.scalar s) = true
  list : ∀ ts, 2 ≤ ts.length → p (.list ts) = true
  map : ∀ name attributes children, Part.Within (.element name attributes children) parts →
    firstKeys (elementPairs attributes children) ≠ [contentKey] →
    p (.map (group (elementPairs attributes children))) = true

variable {p : Tree → Bool} {pairs : List (String × Tree)} {parts : List Part}

theorem all_gather (list : ∀ ts, 2 ≤ ts.length → p (.list ts) = true) {ts : List Tree}
    (some_values : ts ≠ []) (values : ∀ t ∈ ts, t.all p = true) : (gather ts).all p = true := by
  match ts with
  | [t] => exact values t List.mem_cons_self
  | t :: u :: ts => exact Tree.all_list.2 ⟨list _ (by simp), Tree.allItems_iff.2 values⟩

theorem all_of_mem_valuesUnder {key : String} (values : ∀ q ∈ pairs, q.2.all p = true) :
    ∀ t ∈ valuesUnder key pairs, t.all p = true := by
  intro t member
  obtain ⟨q, here, rfl⟩ := List.mem_map.1 member
  exact values q (List.mem_filter.1 here).1

theorem allEntries_group (list : ∀ ts, 2 ≤ ts.length → p (.list ts) = true)
    (values : ∀ q ∈ pairs, q.2.all p = true) : Tree.allEntries p (group pairs) = true := by
  rw [Tree.allEntries_iff]
  intro e member
  obtain ⟨key, first, rfl⟩ := List.mem_map.1 member
  have some_values : valuesUnder key pairs ≠ [] := fun none => valuesUnder_eq_nil_iff.1 none first
  exact all_gather list some_values (all_of_mem_valuesUnder values)

theorem all_collapse (list : ∀ ts, 2 ≤ ts.length → p (.list ts) = true)
    (map : firstKeys pairs ≠ [contentKey] → p (.map (group pairs)) = true)
    (values : ∀ q ∈ pairs, q.2.all p = true) : (collapse pairs).all p = true := by
  rw [collapse]
  split
  · next only =>
    have some_values : valuesUnder contentKey pairs ≠ [] := by
      rw [ne_eq, valuesUnder_eq_nil_iff, only]
      simp
    exact all_gather list some_values (all_of_mem_valuesUnder values)
  · next more => exact Tree.all_map.2 ⟨map more, allEntries_group list values⟩

namespace Passes

/-- What is passed by the maps of all elements is passed by those in one of them. -/
theorem children (h : Passes p parts) {name : String} {attributes : List (String × String)}
    {children : List Part} (member : .element name attributes children ∈ parts) :
    Passes p children where
  scalar := h.scalar
  list := h.list
  map _ _ _ within := h.map _ _ _ (.inside member within)

theorem all_of_stands {parts : List Part} (h : Passes p parts) {part : Part}
    (member : part ∈ parts) {q : String × Tree} (stands : part.entry? = some q) : q.2.all p = true := by
  rcases key_of_entry? stands with named | ⟨-, s, scalar⟩
  · cases part with
    | text | cdata | other => cases named
    | element name attributes children =>
      obtain rfl := Option.some.inj stands
      refine all_collapse h.list (h.map name attributes children (.here member)) ?_
      intro q inside
      rcases List.mem_append.1 inside with of_attribute | of_child
      · obtain ⟨a, -, rfl⟩ := List.mem_map.1 of_attribute
        exact h.scalar _
      · obtain ⟨part, here, stands⟩ := mem_entries.1 of_child
        exact (h.children member).all_of_stands here stands
  · rw [scalar]
    exact h.scalar s

/-- What holds of scalars, of lists of several items and of the maps of elements holds of every part
of a document's tree. -/
theorem allBelow_documentTree (h : Passes p parts) : (documentTree parts).allBelow p = true := by
  apply allEntries_group h.list
  intro q member
  obtain ⟨part, here, stands⟩ := mem_entries.1 member
  exact h.all_of_stands (List.mem_filter.1 here).1 stands

end Passes

/-- What is asked of the parts of a document's tree. -/
def isShaped (t : Tree) : Bool :=
  t.hasSeveralItems && !t.isContentAlone && t.hasUniqueKeys

theorem isShaped_iff {t : Tree} :
    isShaped t = true ↔
      t.hasSeveralItems = true ∧ (!t.isContentAlone) = true ∧ t.hasUniqueKeys = true := by
  simp only [isShaped, Bool.and_eq_true, and_assoc]

theorem passes_isShaped (parts : List Part) : Passes isShaped parts where
  scalar _ := rfl
  list ts several := isShaped_iff.2 ⟨decide_eq_true several, rfl, rfl⟩
  map name attributes children _ more := by
    refine isShaped_iff.2 ⟨rfl, ?_, decide_eq_true (unique_group _)⟩
    simpa [Tree.isContentAlone, keys_group] using more

/-- No map of a document's tree has a key twice, be it the root or below. -/
theorem hasUniqueKeys_documentTree (parts : List Part) :
    (documentTree parts).all Tree.hasUniqueKeys = true := by
  have below := (passes_isShaped parts).allBelow_documentTree
  refine Tree.all_iff.2 ⟨?_, Tree.allBelow_mono (fun t h => (isShaped_iff.1 h).2.2) below⟩
  exact decide_eq_true (unique_group _)

/-- Where no element is void, no collection below the root is empty. -/
theorem passes_not_isEmptyCollection
    (no_void : ∀ part, Part.Within part parts → ¬part.IsVoid) :
    Passes (fun t => !t.isEmptyCollection) parts where
  scalar _ := rfl
  list ts several := by
    match ts with
    | t :: ts => rfl
  map name attributes children within _ := by
    have some_pairs : elementPairs attributes children ≠ [] := no_void _ within
    simpa [Tree.isEmptyCollection, group_eq_nil_iff] using some_pairs

/-- Whatever is read is the tree of a document's parts. -/
theorem exists_isDocument_of_decode {text : String} {t : Tree} (read : decode text = .ok t) :
    ∃ parts, IsDocument text parts ∧ t = documentTree parts := by
  have whole := read
  simp only [decode] at read
  cases events : Event.ofText? (withoutMark text).toList with
  | none => rw [events] at read; cases read
  | some es =>
    simp only [events, ofEvents] at read
    cases run : Frames.initial.run? es with
    | none => rw [run] at read; cases read
    | some fs =>
      simp only [run] at read
      cases outside : fs.elements with
      | cons f rest => rw [outside] at read; cases read
      | nil =>
        obtain ⟨parts, spelled⟩ : ∃ parts, Spells parts es := Frames.closes_of_run? run outside
        have document : IsDocument text parts := ⟨es, events, spelled⟩
        exact ⟨parts, document, Except.ok.inj (whole.symm.trans document.decode_eq)⟩

/-- A walk that leads to an empty collection leads to the map of a void element. -/
theorem exists_void_of_walk {token : Path.Token} {tokens : List Path.Token} {u : Tree}
    (walked : Path.walk .xml (documentTree parts) (token :: tokens) = some u)
    (empty : u.isEmptyCollection = true) :
    u = .map [] ∧ ∃ part, Part.Within part parts ∧ part.IsVoid := by
  constructor
  · have below := (passes_isShaped parts).allBelow_documentTree
    have shaped : isShaped u = true := (Tree.all_iff.1 (Path.all_of_walk_xml below walked)).1
    exact Tree.eq_map_nil_of_isEmptyCollection (isShaped_iff.1 shaped).1 empty
  · by_contra no_void
    have passes : Passes (fun t => !t.isEmptyCollection) parts := by
      apply passes_not_isEmptyCollection
      intro part within void
      exact no_void ⟨part, within, void⟩
    have here := (Tree.all_iff.1 (Path.all_of_walk_xml passes.allBelow_documentTree walked)).1
    rw [empty] at here
    cases here

/-- Where the root is empty, no element is at the top. -/
theorem isElement_of_documentTree_eq (h : documentTree parts = .map []) :
    ∀ part ∈ parts, part.isElement = false := by
  have none : Part.entries (parts.filter Part.isElement) = [] :=
    group_eq_nil_iff.1 (Tree.map.inj h)
  intro part member
  by_contra element
  cases part with
  | text | cdata | other => exact element rfl
  | element name attributes children =>
    have kept := List.mem_filter.2 ⟨member, Bool.of_not_eq_false element⟩
    have entry := mem_entries.2 ⟨_, kept, rfl⟩
    rw [none] at entry
    cases entry

/-- What is true of the tree of a document, whatever the document says. -/
structure DocumentShape (text : String) (t : Tree) : Prop where
  root : t.isMap = true
  several : t.all Tree.hasSeveralItems = true
  content : t.allBelow (fun u => !u.isContentAlone) = true
  unique : t.all Tree.hasUniqueKeys = true
  /-- No list is empty. -/
  no_empty_list : t.all (fun u => !u.isEmptyCollection || u.isMap) = true
  /-- Where a look-up finds an empty collection, the document has a void element. -/
  void : ∀ token tokens u, Path.walk .xml t (token :: tokens) = some u →
    u.isEmptyCollection = true → u = .map [] ∧
      ∃ parts part, IsDocument text parts ∧ Part.Within part parts ∧ part.IsVoid
  /-- The root is empty only if the document has no element. -/
  no_element : t.isEmptyCollection = true → t = .map [] ∧
    ∃ parts, IsDocument text parts ∧ ∀ part ∈ parts, part.isElement = false

/-- The tree of a document has its shape, whatever the document says. -/
theorem shape_of_decode {text : String} {t : Tree}
    (read : ConfigTree.decode .xml text = .ok t) : DocumentShape text t := by
  have read : decode text = .ok t := mapError_eq_ok_iff.1 read
  obtain ⟨parts, document, rfl⟩ := exists_isDocument_of_decode read
  have below : (documentTree parts).allBelow isShaped = true :=
    (passes_isShaped parts).allBelow_documentTree
  have several : (documentTree parts).all Tree.hasSeveralItems = true :=
    Tree.all_iff.2 ⟨rfl, Tree.allBelow_mono (fun t h => (isShaped_iff.1 h).1) below⟩
  constructor
  case root => rfl
  case several => exact several
  case content => exact Tree.allBelow_mono (fun t h => (isShaped_iff.1 h).2.1) below
  case unique => exact hasUniqueKeys_documentTree parts
  case no_empty_list =>
    refine Tree.all_mono ?_ _ several
    intro t several
    cases empty : t.isEmptyCollection with
    | false => rfl
    | true =>
      rw [Tree.eq_map_nil_of_isEmptyCollection several empty]
      rfl
  case void =>
    intro token tokens u walked empty
    obtain ⟨no_entries, part, within, void⟩ := exists_void_of_walk walked empty
    exact ⟨no_entries, parts, part, document, within, void⟩
  case no_element =>
    intro empty
    have no_entries : documentTree parts = .map [] :=
      Tree.eq_map_nil_of_isEmptyCollection rfl empty
    exact ⟨no_entries, parts, document, isElement_of_documentTree_eq no_entries⟩

/-- Text beside a section and an attribute, a child with the name of content, and a void element. -/
theorem shape_of_decode_nested :
    ConfigTree.decode .xml "<r><p k='1'>x<![CDATA[ ]]></p><p><content><e/></content></p></r>" =
        .ok (.map [("r", .map [("p", .list [
          .map [("k", .scalar (.number (.int 1))), ("content", .list [.text "x", .text " "])],
          .map [("e", .map [])]])])]) ∧
      DocumentShape "<r><p k='1'>x<![CDATA[ ]]></p><p><content><e/></content></p></r>"
        (.map [("r", .map [("p", .list [
          .map [("k", .scalar (.number (.int 1))), ("content", .list [.text "x", .text " "])],
          .map [("e", .map [])]])])]) := by
  have document : IsDocument "<r><p k='1'>x<![CDATA[ ]]></p><p><content><e/></content></p></r>"
      [.element "r" [] [.element "p" [("k", "1")] [.text "x", .cdata " "],
        .element "p" [] [.element "content" [] [.element "e" [] []]]]] :=
    ⟨_, by decide +kernel, .element (.element (.text (.cdata .nil))
      (.element (.element (.empty .nil) .nil) .nil)) .nil⟩
  exact ⟨mapError_eq_ok_iff.2 document.decode_eq,
    shape_of_decode (mapError_eq_ok_iff.2 document.decode_eq)⟩

end Xml

end ConfigTree
