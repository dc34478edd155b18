import MapChain.Mapping.Codec
import MapChain.Mapping.Table

/-!
# What can be wrong with a map

One cause per way in which a text, a document or its mappings fail to be a map that
can be followed, and the message of each.
-/

namespace MapChain

/-- What is wrong with a text that should be a document. -/
inductive TextFault where
  /-- It is no JSON. -/
  | malformed
  /-- A field is missing or holds a value of another kind. -/
  | mismatched
  deriving DecidableEq, Repr

/-- What a message says about such a text. -/
def TextFault.message : TextFault → String
  | .malformed => "syntax"
  | .mismatched => "data"

/-- What is wrong with a text that should be a data URL of a document. -/
inductive UrlFault where
  | scheme
  | separator
  /-- The header does not announce base64. -/
  | header
  /-- The payload is no base64. -/
  | payload
  deriving DecidableEq, Repr

/-- What a message says about such a text. -/
def UrlFault.message : UrlFault → String
  | .scheme => "missing data: scheme"
  | .separator => "missing ',' separator"
  | .header => "source map data URIs must be base64-encoded"
  | .payload => "base64"

/-- Why something is no map. -/
inductive MapError where
  | text (fault : TextFault)
  | missingVersion
  | unsupportedVersion (version : Nat)
  | mappings (error : Codec.Error)
  | dangling (index : Dangling)
  | url (fault : UrlFault)
  deriving DecidableEq, Repr

/-- The message of an error. -/
def MapError.message : MapError → String
  | .text fault => "Invalid source map JSON: " ++ fault.message
  | .missingVersion => "Source map has no version field"
  | .unsupportedVersion version =>
    "Unsupported source map version " ++ Text.decimal version ++ " (expected 3)"
  | .mappings error =>
    "Invalid mappings on generated line " ++ Text.decimal error.line ++ ", segment " ++
      Text.decimal error.segment ++ ": " ++ error.fault.message
  | .dangling index =>
    "Segment on generated line " ++ Text.decimal index.line ++ " references " ++
      index.listing.title ++ " " ++ Text.decimal index.index.toNat ++ ", but the map has " ++
      Text.decimal index.count ++ " " ++ index.listing.title ++ "s"
  | .url fault => "Invalid data URI: " ++ fault.message

end MapChain
