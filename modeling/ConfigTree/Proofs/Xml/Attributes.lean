import ConfigTree.Proofs.Config.Accessors
import ConfigTree.Proofs.Xml.Site

/-!
# Attributes of an element with text

Without attributes an element with text is its text, with attributes it is a map that holds the
text as content. Who asks for the element by its name does not see the difference unless a map was
asked for (`attributes_unseen`): a walk that lands on the map goes on to its content, unless that is
null, and then the map is hidden where the null is not found (`resolve_landing`).
-/

namespace ConfigTree.Xml

open ConfigTree.Path (Token landing)
open Entries (firstKeys)

/-- A text is a document with the given parts. -/
def IsDocument (text : String) (parts : List Part) : Prop :=
  ∃ es, Event.ofText? (withoutMark text).toList = some es ∧ Spells parts es

theorem IsDocument.decode_eq {text : String} {parts : List Part} (h : IsDocument text parts) :
    decode text = .ok (documentTree parts) := by
  obtain ⟨es, events, spelled⟩ := h
  simp only [decode, events, ofEvents, Frames.run?_initial_of_spells spelled, documentTree,
    ← entries_receive_initial]
  rfl

/-- Whether a part is content of the element around it. -/
def Part.isContent : Part → Bool
  | .text content => trimmed content != ""
  | .cdata _ => true
  | _ => false

/-- The parts of an element with text and no other elements in it. -/
structure OnlyText (children : List Part) : Prop where
  no_element : ∀ part ∈ children, part.isElement = false
  some_content : ∃ part ∈ children, part.isContent = true

/-- The value of an element. -/
def elementValue (attributes : List (String × String)) (children : List Part) : Tree :=
  collapse (attributes.map attributeEntry ++ Part.entries children)

variable {children : List Part} {attributes : List (String × String)}

theorem OnlyText.entries_ne_nil (h : OnlyText children) : Part.entries children ≠ [] := by
  obtain ⟨part, here, content⟩ := h.some_content
  obtain ⟨p, stands⟩ : ∃ p, part.entry? = some p := by
    cases part with
    | text run =>
      have not_blank : trimmed run ≠ "" := by simpa [Part.isContent] using content
      exact ⟨_, if_neg not_blank⟩
    | cdata => exact ⟨_, rfl⟩
    | element | other => cases content
  exact List.ne_nil_of_mem (mem_entries.2 ⟨part, here, stands⟩)

/-- Text stands for scalars that are content. -/
theorem OnlyText.scalar_content (h : OnlyText children) {p : String × Tree}
    (member : p ∈ Part.entries children) : p.1 = contentKey ∧ ∃ s, p.2 = .scalar s := by
  obtain ⟨part, here, stands⟩ := mem_entries.1 member
  rcases key_of_entry? stands with named | content
  · have bare := h.no_element part here
    cases part with
    | element => cases bare
    | text | cdata | other => cases named
  · exact content

/-- Without attributes, an element with text is its text. -/
theorem OnlyText.value_eq (h : OnlyText children) :
    elementValue [] children = gather (valuesUnder contentKey (Part.entries children)) := by
  have only : firstKeys (Part.entries children) = [contentKey] := by
    rw [Entries.firstKeys_eq_singleton_iff]
    exact ⟨h.entries_ne_nil, fun _ member => (h.scalar_content member).1⟩
  exact if_pos only

theorem OnlyText.isMap_value (h : OnlyText children) :
    (elementValue [] children).isMap = false := by
  rw [h.value_eq]
  match values : valuesUnder contentKey (Part.entries children) with
  | [t] =>
    have member : t ∈ valuesUnder contentKey (Part.entries children) := by simp [values]
    obtain ⟨p, here, rfl⟩ := List.mem_map.1 member
    obtain ⟨-, s, scalar⟩ := h.scalar_content (List.mem_filter.1 here).1
    rw [gather, scalar]
    rfl
  | [] | _ :: _ :: _ => rfl

/-- With attributes, it is a map that holds its text as content. -/
theorem OnlyText.value_attributes (h : OnlyText children) (some_attributes : attributes ≠ [])
    (no_content : contentKey ∉ attributes.map Prod.fst) :
    ∃ es, elementValue attributes children = .map es ∧
      Entries.find? contentKey es = some (elementValue [] children) := by
  have more :
      firstKeys (attributes.map attributeEntry ++ Part.entries children) ≠ [contentKey] := by
    rw [ne_eq, Entries.firstKeys_eq_singleton_iff]
    rintro ⟨-, only⟩
    obtain ⟨a, member⟩ := List.exists_mem_of_ne_nil attributes some_attributes
    have key := only (attributeEntry a) (List.mem_append_left _ (List.mem_map_of_mem member))
    exact no_content (List.mem_map.2 ⟨a, member, key⟩)
  have some_values : valuesUnder contentKey (Part.entries children) ≠ [] := by
    obtain ⟨p, member⟩ := List.exists_mem_of_ne_nil _ h.entries_ne_nil
    rw [ne_eq, valuesUnder_eq_nil_iff, Entries.mem_firstKeys]
    exact not_not_intro (List.mem_map.2 ⟨p, member, (h.scalar_content member).1⟩)
  refine ⟨_, if_neg more, ?_⟩
  rw [find?_group, valuesUnder_append, valuesUnder_attributes no_content, List.nil_append,
    if_neg some_values, h.value_eq]

/-- Readers that take no maps get the same of a map on which a walk lands as of its content, where
that is no map itself. -/
theorem resolve_landing {es : Entries Tree} {v : Tree}
    (content : Entries.find? contentKey es = some v) (no_map : v.isMap = false)
    {α : Type} [Readable α] {default : α} (takes_no_map : Readable.isMap default = false) :
    resolve .xml (landing v) default = resolve .xml (landing (.map es)) default := by
  have inside : Path.content? .xml (.map es) = (some v).filter fun t => !t.isNull := by
    rw [← content]
    rfl
  have bare : Path.content? .xml v = none := by
    cases v with
    | map => cases no_map
    | scalar | list => rfl
  have kept : (Tree.map es).isNull = false := rfl
  rw [landing, landing, inside, bare, kept, Option.filter_some]
  cases v.isNull with
  | false => rfl
  | true =>
    have hidden : isPresent .xml false (.map es) = false := by
      rw [isPresent_eq]
      exact Bool.and_false _
    show default = resolve .xml (some (.map es)) default
    rw [resolve, takes_no_map, present?, Option.filter_some, hidden]
    rfl

/-- Tokens lead to a place along its address, and no step before the last one ends the walk. -/
structure LeadsTo (root : Tree) (address : List Path.Step) (tokens : List Token) : Prop where
  along : tokens.map Token.step = address
  unfired : ∀ k < tokens.length, ∀ content, ¬Path.Fires root tokens k content

/-- A configuration that holds a tree of XML. -/
structure HoldsXml (c : Config) (t : Tree) : Prop where
  format : c.format = .xml
  cached : c.cached = some t

/-- Attributes of an element with text are unseen by those who ask for it by name. -/
theorem attributes_unseen {site : Site} {name : String} (only_text : OnlyText children)
    (not_content : name ≠ contentKey) (free : site.IsFree name) (some_attributes : attributes ≠ [])
    (no_content : contentKey ∉ attributes.map Prod.fst) {text text' : String}
    (document : IsDocument text (site.document (.element name [] children)))
    (document' : IsDocument text' (site.document (.element name attributes children))) :
    ∃ t t', decode text = .ok t ∧ decode text' = .ok t' ∧
      ∀ {path : String} {indices : List Nat} {tokens : List Token},
        Path.tokenize path indices = .ok tokens → LeadsTo t (site.address name) tokens →
        ∀ {α : Type} [Readable α] (default : α), Readable.isMap default = false →
        ∀ {c c' : Config}, HoldsXml c t → HoldsXml c' t' → ∀ fs : FileSystem,
          (c.ask fs (.getOr path default indices)).1 =
            (c'.ask fs (.getOr path default indices)).1 := by
  refine ⟨_, _, document.decode_eq, document'.decode_eq, ?_⟩
  intro path indices tokens valid leads α _ default takes_no_map c c' holds holds' fs
  obtain ⟨steps, address⟩ := Site.address_of_isFree not_content free
  obtain ⟨es, value, content⟩ := only_text.value_attributes some_attributes no_content
  have stands (attributes : List (String × String)) :
      Part.entry? (.element name attributes children) =
        some (name, elementValue attributes children) := rfl
  have differ := site.differAt_document rfl rfl (stands []) (stands attributes)
  have along := leads.along
  rw [address] at differ along
  obtain ⟨found, found'⟩ := Path.walk_xml_of_differAt differ not_content along leads.unfired
  rw [Config.answer_of_cached (q := .getOr path default indices) holds.cached valid,
    Config.answer_of_cached (q := .getOr path default indices) holds'.cached valid,
    Query.answer, Query.answer, holds.format, holds'.format, found, found']
  have same := resolve_landing content only_text.isMap_value takes_no_map
  rw [← value] at same
  exact congrArg Except.ok same

/-- The second of two elements holds an element with the text of a null, which is a null without the
attribute and a map with it. -/
theorem attributes_unseen_null :
    ∃ t t', decode "<r><p/><p><e> Null </e></p></r>" = .ok t ∧
      decode "<r><p/><p><e k='1'> Null </e></p></r>" = .ok t' ∧
      ((Config.ofTree .xml t).ask bareWorld (.getOr "r.p.1.e" "none" [])).1 =
        ((Config.ofTree .xml t').ask bareWorld (.getOr "r.p.1.e" "none" [])).1 := by
  let site : Site := .within (.within (.top [] []) "r" [] [.element "p" [] []] []) "p" [] [] []
  have spelled (attributes : List (String × String)) :
      Spells (site.document (.element "e" attributes [.text " Null "])) _ :=
    .element (.empty (.element (.element (.text .nil) .nil) .nil)) .nil
  have document : IsDocument "<r><p/><p><e> Null </e></p></r>"
      (site.document (.element "e" [] [.text " Null "])) :=
    ⟨_, by decide +kernel, spelled []⟩
  have document' : IsDocument "<r><p/><p><e k='1'> Null </e></p></r>"
      (site.document (.element "e" [("k", "1")] [.text " Null "])) :=
    ⟨_, by decide +kernel, spelled [("k", "1")]⟩
  have only_text : OnlyText [.text " Null "] :=
    ⟨by simp [Part.isElement], _, List.mem_cons_self, rfl⟩
  have free : site.IsFree "e" := by simp [site, Site.IsFree]
  obtain ⟨t, t', read, read', same⟩ := attributes_unseen only_text (by decide) free
    (by simp) (by decide) document document'
  obtain rfl := Except.ok.inj (read.symm.trans document.decode_eq)
  have leads : LeadsTo (documentTree (site.document (.element "e" [] [.text " Null "])))
      (site.address "e") [.segment "r", .segment "p", .segment "1", .segment "e"] := by
    constructor
    case along => rfl
    case unfired =>
      rintro k less content ⟨-, -, ⟨es, landed, found⟩, -⟩
      have some_tokens : k = 0 ∨ k = 1 ∨ k = 2 ∨ k = 3 := by
        rw [List.length_cons, List.length_cons, List.length_cons, List.length_singleton] at less
        omega
      rcases some_tokens with rfl | rfl | rfl | rfl
      · cases landed
        cases found
      · cases landed
        cases found
      -- two steps lead to the list of both elements
      · cases landed
      · cases landed
        cases found
  exact ⟨_, t', read, read', same rfl leads "none" rfl ⟨rfl, rfl⟩ ⟨rfl, rfl⟩ bareWorld⟩

end ConfigTree.Xml
