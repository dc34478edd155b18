import MapChain.Document.DataUrl
import MapChain.Proofs.Text.Length
import Mathlib.Data.List.TakeWhile

/-!
# The texts of maps

The text of a map stands in a file or is carried by a data URL. A text declares a version if it
is a JSON object whose last version field holds a natural number. Reading looks at this before
all else: it refuses every version but the supported one, and a text that declares none.
-/

namespace MapChain.Document

/-- The version that the text of a map declares, whatever else the text holds. -/
def Declares (text : List Char) (version : Nat) : Prop :=
  ∃ value, Json.decode? text = some value ∧ value.field? "version" = some (.natural version)

/-- A data URL carries a text: behind its first comma, in base64. -/
inductive Carries : String → List Char → Prop where
  | payload (url : String) (header payload : List Char) (bytes : List UInt8) (text : List Char)
      (spelled : url.toList = scheme ++ (header ++ ',' :: payload)) (clean : ',' ∉ header)
      (announced : announcesBase64 header = true)
      (coded : Base64.decode? (Utf8.encode (Text.trim payload)) = some bytes)
      (read : Utf8.decode? bytes = some text) : Carries url text

/-- A text declares one version at most. -/
theorem Declares.unique {text : List Char} {version other : Nat} (one : Declares text version)
    (another : Declares text other) : version = other := by
  obtain ⟨value, spelled, field⟩ := one
  obtain ⟨_, otherSpelled, otherField⟩ := another
  obtain rfl := Option.some.inj (spelled.symm.trans otherSpelled)
  simpa using field.symm.trans otherField

/-- A text that is read as a document declares the supported version. -/
theorem declares_of_ofChars {text : List Char} {document : Document}
    (read : ofChars text = .ok document) : Declares text supported.toNat := by
  simp only [ofChars] at read
  split at read
  · rename_i value spelled
    simp only [ofJson] at read
    split at read
    · rename_i version field
      split at read
      · rename_i own
        exact ⟨value, spelled, own ▸ field⟩
      · simp at read
    · simp at read
  · simp at read

/-- A text that declares any other version is refused for it. -/
theorem ofChars_of_declares {text : List Char} {version : Nat} (declares : Declares text version)
    (other : version ≠ supported.toNat) : ofChars text = .error (.unsupportedVersion version) := by
  obtain ⟨value, spelled, field⟩ := declares
  simp only [ofChars, spelled, ofJson, field, if_neg other]

/-- A data URL is read as the text that it carries. -/
theorem ofDataUrl_of_carries {url : String} {text : List Char} (carries : Carries url text) :
    ofDataUrl url = ofChars text := by
  obtain ⟨header, payload, bytes, _, spelled, clean, announced, coded, read⟩ := carries
  have kept : ∀ c ∈ header, (c != ',') = true := by
    intro c member
    simpa using fun same : c = ',' => clean (same ▸ member)
  have rest : scheme.isPrefixOf? url.toList = some (header ++ ',' :: payload) := by
    rw [spelled]
    rfl
  have front : (header ++ ',' :: payload).takeWhile (· != ',') = header := by
    rw [List.takeWhile_append_of_pos kept]
    simp
  have behind : (header ++ ',' :: payload).dropWhile (· != ',') = ',' :: payload := by
    rw [List.dropWhile_append_of_pos kept]
    simp
  simp only [ofDataUrl, rest, front, behind, announced, coded, ofBytes, read, if_true]

/-- A data URL that is read as a document carries a text. -/
theorem exists_carries_of_ofDataUrl {url : String} {document : Document}
    (read : ofDataUrl url = .ok document) : ∃ text, Carries url text := by
  simp only [ofDataUrl] at read
  split at read
  · simp at read
  · rename_i rest announced
    split at read
    · simp at read
    · rename_i comma payload found
      split at read
      · rename_i coded
        split at read
        · rename_i bytes carried
          simp only [ofBytes] at read
          split at read
          · rename_i text decoded
            have spelled := Text.append_of_isPrefixOf? announced
            have parted := List.takeWhile_append_dropWhile (p := (· != ',')) (l := rest)
            have first := List.head?_dropWhile_not (· != ',') rest
            simp only [found, List.head?_cons, bne_eq_false_iff_eq] at first
            rw [found, first] at parted
            refine ⟨text, .payload url _ payload bytes text ?_ ?_ coded carried decoded⟩
            · rw [parted, spelled]
            · intro member
              simpa using List.mem_takeWhile_imp member
          · simp at read
        · simp at read
      · simp at read

/-- The text that a data URL carries is no longer than the URL. -/
theorem Carries.length_le {url : String} {text : List Char} (carries : Carries url text) :
    text.length ≤ url.length := by
  obtain ⟨header, payload, bytes, _, spelled, _, _, coded, read⟩ := carries
  obtain ⟨shorter, plain⟩ := Base64.spec_decode? coded
  have payloadBytes := Utf8.length_encode plain
  have trimmed := Text.length_trim_le payload
  have decoded := Utf8.length_of_decode? read
  have whole := congrArg List.length spelled
  simp only [String.length_toList, List.length_append, List.length_cons] at whole
  omega

end MapChain.Document
