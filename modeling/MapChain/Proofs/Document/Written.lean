import MapChain.Document.DataUrl
import MapChain.Proofs.Json.Written
import MapChain.Proofs.Text.Base64
import MapChain.Proofs.Text.Percent
import MapChain.Proofs.Text.Split
import MapChain.Proofs.Text.Utf8

/-!
# Reading written documents

A document of the supported version reads back from its text and from its data URL. Its value
holds strings, lists of strings and one small number only, so the text is one that a reader
gets back from. The data URL is written with characters that may stand in any URI, which is
why nothing about it is lost to trimming or to percent coding.
-/

namespace MapChain

/-- Nothing is trimmed from a text without blanks. -/
theorem Text.trim_eq_self {text : List Char} (plain : ∀ c ∈ text, isBlank c = false) :
    trim text = text := by
  have kept {text : List Char} (plain : ∀ c ∈ text, isBlank c = false) :
      text.dropWhile isBlank = text := by
    cases text with
    | nil => rfl
    | cons c text => exact List.dropWhile_cons_of_neg (by simp [plain c (by simp)])
  rw [trim, trimStart, kept plain, trimEnd, kept (by simpa using plain), List.reverse_reverse]

namespace Document

/-- A list reads back if each of its items does. -/
theorem list?_map (item : Json → Option β) (write : α → Json) (read : α → β)
    (each : ∀ own, item (write own) = some (read own)) (items : List α) :
    list? item (.array (items.map write)) = some (items.map read) := by
  induction items with
  | nil => rfl
  | cons first items inductionHypothesis =>
    simp only [list?, List.map_cons, List.mapM_cons, each] at inductionHypothesis ⊢
    rw [inductionHypothesis]
    rfl

/-- A text, or none, reads back from its value. -/
theorem nullable?_ofString? (text : Option String) :
    nullable? (Json.ofString? text) = some text := by
  cases text <;> rfl

/-- A document of the supported version reads back from its value. -/
theorem ofJson_toJson {document : Document} (own : document.version = supported) :
    ofJson document.toJson = .ok document := by
  obtain ⟨version, file, sourceRoot, sources, contents, names, mappings⟩ := document
  subst own
  have sourcesRead : list? nullable? (.array (sources.map .string)) = some (sources.map some) :=
    list?_map nullable? .string some (fun _ => rfl) sources
  have namesRead : list? text? (.array (names.map .string)) = some (names.map id) :=
    list?_map text? .string id (fun _ => rfl) names
  have contentsRead (contents : List (Option String)) :
      list? nullable? (.array (contents.map Json.ofString?)) = some (contents.map id) :=
    list?_map nullable? Json.ofString? id nullable?_ofString? contents
  -- Each optional field is written or left out, and all others are found behind it.
  cases file <;> cases sourceRoot <;> cases contents <;>
    simp [ofJson, ofFields?, toJson, member, Json.field?, nullable?, text?, sourcesRead,
      namesRead, contentsRead, Function.comp_def]

/-- A member is written for a field that has a value. -/
theorem eq_some_of_mem_member {name : String} {value : Option Json} {field : String × Json}
    (inside : field ∈ member name value) : value = some field.2 := by
  obtain ⟨own, has, rfl⟩ := Option.map_eq_some_iff.mp (Option.mem_toList.mp inside)
  exact has

/-- The value of a document is one whose text reads back. -/
theorem reads_toJson {layout : Json.Layout} (blank : layout.IsBlank) (document : Document) :
    Json.Reads layout Json.nesting document.toJson := by
  have small : document.version.toNat < Json.Number.limit :=
    Nat.lt_trans document.version.toNat_lt (by decide)
  have string {value : Json} (text : Option String) (written : text.map .string = some value) :
      Json.Reads layout 126 value := by
    obtain ⟨own, _, rfl⟩ := Option.map_eq_some_iff.mp written
    exact Json.reads_string 126 own
  have strings {value : Json} (texts : List String)
      (written : some (.array (texts.map .string)) = some value) : Json.Reads layout 126 value := by
    obtain rfl := Option.some.inj written
    refine Json.reads_array blank fun item listed => ?_
    obtain ⟨text, _, rfl⟩ := List.mem_map.mp listed
    exact Json.reads_string 125 text
  refine Json.reads_object blank fun field inside => ?_
  simp only [List.mem_append] at inside
  rcases inside with (((((version | file) | root) | sources) | contents) | names) | mappings
  · rw [← Option.some.inj (eq_some_of_mem_member version)]
    exact Json.reads_natural 126 small
  · exact string document.file (eq_some_of_mem_member file)
  · exact string document.sourceRoot (eq_some_of_mem_member root)
  · exact strings document.sources (eq_some_of_mem_member sources)
  · obtain ⟨texts, _, same⟩ := Option.map_eq_some_iff.mp (eq_some_of_mem_member contents)
    rw [← same]
    refine Json.reads_array blank fun item listed => ?_
    obtain ⟨text, _, rfl⟩ := List.mem_map.mp listed
    cases text with
    | none => exact Json.reads_null 125
    | some text => exact Json.reads_string 125 text
  · exact strings document.names (eq_some_of_mem_member names)
  · exact string (some document.mappings) (eq_some_of_mem_member mappings)

/-- What a document's text is read as depends on its value only, in every blank layout. -/
theorem ofChars_write {layout : Json.Layout} (blank : layout.IsBlank) (document : Document) :
    ofChars (document.toJson.write layout 0) = ofJson document.toJson := by
  rw [ofChars, Json.decode?_write (reads_toJson blank document)]

/-- What the compact text of a document is read as depends on the document's value only. -/
theorem ofChars_toText_eq (document : Document) :
    ofChars document.toText.toList = ofJson document.toJson := by
  rw [toText, Json.compact, String.toList_ofList, ofChars_write Json.isBlank_compact]

/-- A document of the supported version reads back from its text. -/
theorem ofChars_toText {document : Document} (own : document.version = supported) :
    ofChars document.toText.toList = .ok document := by
  rw [ofChars_toText_eq, ofJson_toJson own]

/-- A payload is written with characters that stand for themselves in any URI, the star
not among them. -/
theorem isKept_of_mem_payload {bytes : List UInt8} {c : Char}
    (member : c ∈ Base64.encode bytes) : Percent.isKept c = true ∧ c ≠ '*' := by
  have letters : ∀ value : Fin 64, Percent.isKept (Base64.letter value) = true ∧
      Base64.letter value ≠ '*' := by decide
  rcases Base64.exists_letter_of_mem_encode member with rfl | ⟨value, small, rfl⟩
  · decide
  · exact letters ⟨value, small⟩

/-- A data URL is written with characters that stand for themselves in any URI, the star not among
them. -/
theorem isKept_of_mem_toDataUrl {document : Document} {c : Char}
    (member : c ∈ document.toDataUrl.toList) : Percent.isKept c = true ∧ c ≠ '*' := by
  have front : header.all (fun c => Percent.isKept c && c != '*') = true := by decide
  rw [toDataUrl, String.toList_ofList] at member
  rcases List.mem_append.mp member with inside | inside
  · simpa using List.all_eq_true.mp front c inside
  · exact isKept_of_mem_payload inside

/-- The payload of a written data URL is not trimmed. -/
theorem trim_payload (bytes : List UInt8) :
    Text.trim (Base64.encode bytes) = Base64.encode bytes := by
  apply Text.trim_eq_self
  intro c inside
  exact Percent.IsPlain.not_isBlank (.inl (isKept_of_mem_payload inside).1)

/-- A document's bytes are read as its text is. -/
theorem ofBytes_toText (document : Document) :
    ofBytes (Utf8.encode document.toText.toList) = ofChars document.toText.toList := by
  rw [ofBytes, Utf8.decode?_encode]

/-- A document's data URL is read as its text is. -/
theorem ofDataUrl_toDataUrl_eq (document : Document) :
    ofDataUrl document.toDataUrl = ofChars document.toText.toList := by
  have parted (payload : List Char) : scheme.isPrefixOf? (header ++ payload) =
      some ("application/json;charset=utf-8;base64".toList ++ ',' :: payload) := rfl
  have behind (payload : List Char) : ("application/json;charset=utf-8;base64".toList ++
      ',' :: payload).dropWhile (· != ',') = ',' :: payload := rfl
  have announced (payload : List Char) :
      announcesBase64 (("application/json;charset=utf-8;base64".toList ++
        ',' :: payload).takeWhile (· != ',')) = true := rfl
  simp only [ofDataUrl, toDataUrl, String.toList_ofList, parted, behind, announced, if_true,
    trim_payload, Base64.decode?_encode, ofBytes_toText]

/-- A document of the supported version reads back from its data URL. -/
theorem ofDataUrl_toDataUrl {document : Document} (own : document.version = supported) :
    ofDataUrl document.toDataUrl = .ok document := by
  rw [ofDataUrl_toDataUrl_eq, ofChars_toText own]

end Document

end MapChain
