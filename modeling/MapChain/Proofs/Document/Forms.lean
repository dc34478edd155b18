import MapChain.Proofs.Document.Written

/-!
# The written forms of a document

A document has four written forms: a text on one line, an indented text, the bytes of the
former, and a data URL that carries these. All of them are read alike. A document of the
supported version comes back as it was, whatever its strings hold and whichever of its
optional fields have a value. A document of another version is refused for its version, for
that is looked at before all else.
-/

namespace MapChain

/-- The layout over several lines adds nothing but white space. -/
theorem Json.isBlank_pretty : Json.Layout.pretty.IsBlank := by
  constructor
  · intro depth c member
    rcases List.mem_cons.mp member with rfl | member
    · rfl
    · rw [List.eq_of_mem_replicate member]
      rfl
  · intro c member
    rw [List.mem_singleton.mp member]
    rfl

namespace Document

/-- What a document is read as once it is written: itself, if its version is supported. -/
def reread (document : Document) : Except MapError Document :=
  if document.version = supported then .ok document
  else .error (.unsupportedVersion document.version.toNat)

/-- The version is a member of every document's value, whichever members stand behind it. -/
theorem field?_version (document : Document) :
    document.toJson.field? "version" = some (.natural document.version.toNat) := by
  obtain ⟨version, file, sourceRoot, sources, contents, names, mappings⟩ := document
  cases file <;> cases sourceRoot <;> cases contents <;> simp [toJson, member, Json.field?]

/-- A document of another version is refused for its version. -/
theorem ofJson_toJson_of_ne {document : Document} (other : document.version ≠ supported) :
    ofJson document.toJson = .error (.unsupportedVersion document.version.toNat) := by
  have different : document.version.toNat ≠ supported.toNat := by
    rw [ne_eq, UInt32.toNat_inj]
    exact other
  simp only [ofJson, field?_version, if_neg different]

/-- What the value of a document is read as. -/
theorem ofJson_toJson_eq (document : Document) : ofJson document.toJson = document.reread := by
  by_cases own : document.version = supported
  · rw [reread, if_pos own, ofJson_toJson own]
  · rw [reread, if_neg own, ofJson_toJson_of_ne own]

/-- All written forms of a document are read as the document, or refused for its version. -/
theorem read_written (document : Document) : ofText document.toText = document.reread ∧
    ofText document.toPrettyText = document.reread ∧
    ofBytes (Utf8.encode document.toText.toList) = document.reread ∧
    ofDataUrl document.toDataUrl = document.reread := by
  have text : ofChars document.toText.toList = document.reread := by
    rw [ofChars_toText_eq, ofJson_toJson_eq]
  refine ⟨text, ?_, ?_, ?_⟩
  · rw [ofText, toPrettyText, Json.pretty, String.toList_ofList, ofChars_write Json.isBlank_pretty,
      ofJson_toJson_eq]
  · rw [ofBytes_toText, text]
  · rw [ofDataUrl_toDataUrl_eq, text]

end Document

end MapChain
