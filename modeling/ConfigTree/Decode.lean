import ConfigTree.Json.Parse
import ConfigTree.Properties.Entry
import ConfigTree.Xml.Document
import ConfigTree.Yaml.Document

/-!
# Reading documents
-/

namespace ConfigTree

/-- The tree of a document of a format. -/
def decode (format : Format) (text : String) : Except Error Tree :=
  let tree := match format with
    | .json => Json.decode text
    | .yaml => Yaml.decode text
    | .xml => Xml.decode text
    | .properties => Properties.decode text
  tree.mapError (.badDocument format)

theorem mapError_eq_ok_iff {α ε ε' : Type} {f : ε → ε'} {x : Except ε α} {a : α} :
    x.mapError f = .ok a ↔ x = .ok a := by
  constructor
  · intro h
    cases x with
    | error e => cases h
    | ok b =>
      obtain rfl := Except.ok.inj h
      rfl
  · rintro rfl
    rfl

/-- What goes wrong in reading a document is a fault of that document. -/
theorem decode_error {format : Format} {text : String} {e : Error}
    (h : decode format text = .error e) : ∃ fault, e = .badDocument format fault := by
  unfold decode at h
  extract_lets tree at h
  cases ht : tree with
  | ok t => rw [ht] at h; cases h
  | error fault =>
    rw [ht] at h
    exact ⟨fault, (Except.error.inj h).symm⟩

end ConfigTree
