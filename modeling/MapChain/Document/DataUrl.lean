import MapChain.Document.Basic
import MapChain.Text.Base64
import MapChain.Text.Blank
import MapChain.Text.Split

/-!
# Documents in data URLs

A document can stand in a URL of its own: a header of parts between semicolons, one of
which says base64, then a comma and the payload. Blanks around a part and around the
payload do not count.
-/

namespace MapChain.Document

/-- What every data URL starts with. -/
def scheme : List Char := "data:".toList

/-- What a written data URL has in front of its payload. -/
def header : List Char := "data:application/json;charset=utf-8;base64,".toList

/-- Whether a header announces a base64 payload. -/
def announcesBase64 (header : List Char) : Bool :=
  (Text.split ';' header).any fun part => Text.trim part == "base64".toList

/-- The document that a data URL carries. -/
def ofDataUrl (url : String) : Except MapError Document :=
  match scheme.isPrefixOf? url.toList with
  | none => .error (.url .scheme)
  | some rest =>
    match rest.dropWhile (· != ',') with
    | [] => .error (.url .separator)
    | _ :: payload =>
      if announcesBase64 (rest.takeWhile (· != ',')) then
        match Base64.decode? (Utf8.encode (Text.trim payload)) with
        | some bytes => ofBytes bytes
        | none => .error (.url .payload)
      else .error (.url .header)

/-- The data URL that carries a document. -/
def toDataUrl (document : Document) : String :=
  String.ofList (header ++ Base64.encode (Utf8.encode document.toText.toList))

end MapChain.Document
