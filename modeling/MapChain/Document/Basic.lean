import MapChain.Document.Error
import MapChain.Json.Reader
import MapChain.Json.Writer

/-!
# Map documents

The document of a map as it stands in a file. Reading looks at the version before all
else, so a document of another version is reported as such whatever its other fields
hold. A source may be null, which stands for the empty name. Writing leaves out the
optional fields that have no value.
-/

namespace MapChain

/-- A map document. -/
structure Document where
  version : UInt32
  /-- The generated file. -/
  file : Option String := none
  /-- What every source is relative to. -/
  sourceRoot : Option String := none
  sources : List String
  /-- The texts of the sources, where the document carries them. -/
  contents : Option (List (Option String)) := none
  names : List String := []
  mappings : String
  deriving DecidableEq, Repr

namespace Document

/-- The one version that is read. -/
def supported : UInt32 := 3

/-- The text of a string. -/
def text? : Json → Option String
  | .string text => some text
  | _ => none

/-- The text of a string, or none for null. -/
def nullable? : Json → Option (Option String)
  | .string text => some (some text)
  | .null => some none
  | _ => none

/-- The items of an array, each of them read. -/
def list? (item : Json → Option α) : Json → Option (List α)
  | .array items => items.mapM item
  | _ => none

/-- The document that the fields of an object spell, apart from the version. -/
def ofFields? (value : Json) : Option Document := do
  let file ← nullable? ((value.field? "file").getD .null)
  let sourceRoot ← nullable? ((value.field? "sourceRoot").getD .null)
  let sources ← list? nullable? (← value.field? "sources")
  let contents ←
    match value.field? "sourcesContent" with
    | none | some .null => some none
    | some field => some <$> list? nullable? field
  let names ← list? text? ((value.field? "names").getD (.array []))
  let mappings ← text? (← value.field? "mappings")
  return ⟨supported, file, sourceRoot, sources.map (·.getD ""), contents, names, mappings⟩

/-- The document that a value spells. -/
def ofJson (value : Json) : Except MapError Document :=
  match value.field? "version" with
  | some (.natural version) =>
    if version = supported.toNat then
      match ofFields? value with
      | some document => .ok document
      | none => .error (.text .mismatched)
    else .error (.unsupportedVersion version)
  | _ => .error .missingVersion

/-- The document that a text spells. -/
def ofChars (text : List Char) : Except MapError Document :=
  match Json.decode? text with
  | some value => ofJson value
  | none => .error (.text .malformed)

/-- The document that a text spells. -/
def ofText (text : String) : Except MapError Document := ofChars text.toList

/-- The document that bytes spell, which have to be well-formed UTF-8. -/
def ofBytes (bytes : List UInt8) : Except MapError Document :=
  match Utf8.decode? bytes with
  | some text => ofChars text
  | none => .error (.text .malformed)

/-- A member for an optional field, if it has a value. -/
def member (name : String) (value : Option Json) : List (String × Json) :=
  (value.map fun value => (name, value)).toList

/-- The document as a value. -/
def toJson (document : Document) : Json :=
  .object <|
    member "version" (some (.natural document.version.toNat)) ++
    member "file" (document.file.map .string) ++
    member "sourceRoot" (document.sourceRoot.map .string) ++
    member "sources" (some (.array (document.sources.map .string))) ++
    member "sourcesContent"
      (document.contents.map fun contents => .array (contents.map Json.ofString?)) ++
    member "names" (some (.array (document.names.map .string))) ++
    member "mappings" (some (.string document.mappings))

/-- The document on one line. -/
def toText (document : Document) : String := document.toJson.compact

/-- The document indented over several lines. -/
def toPrettyText (document : Document) : String := document.toJson.pretty

/-- The decoded table of a document. -/
def table (document : Document) : Except MapError Table :=
  match Codec.decode document.mappings with
  | .error error => .error (.mappings error)
  | .ok lines =>
    match Table.make document.sources (document.contents.getD []) document.names lines with
    | .error dangling => .error (.dangling dangling)
    | .ok table => .ok table

end Document

end MapChain
