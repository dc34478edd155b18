import MapChain.Path.Basic
import MapChain.Text.Blank
import MapChain.Text.Percent
import MapChain.Text.Split

/-!
# Reference comments

A generated file names its map in a comment: `//#` or `/*#`, or `@` in place of the
sign, then blanks, the word sourceMappingURL, an equals sign and the value.

`locate` looks at every line and takes the last value that is not blank. On a line the
value reaches from the first comment whose rest holds no carriage return but a final
one to the end of the line, less one closing mark. `strip` removes the comment that
ends a file and the blanks around it: the first one behind whose end only blanks
follow, where a line comment ends with its line and a block comment with its mark.
-/

namespace MapChain

/-- Where the map of a file is. -/
inductive Reference where
  /-- In the comment itself, as a data URL. -/
  | inline (url : String)
  /-- In a file, named as seen from the directory of the referring one. -/
  | file (target : String)
  deriving DecidableEq, Repr

/-- The two kinds of comments. -/
inductive CommentStyle where
  | line
  | block
  deriving DecidableEq, Repr

namespace Reference

/-- The word between the sign and the value. -/
def keyword : List Char := "sourceMappingURL=".toList

/-- The style that the second character of a comment opens. -/
def style? (c : Char) : Option CommentStyle :=
  if c = '/' then some .line else if c = '*' then some .block else none

/-- The style of the reference comment that a text starts with, and the text from its
value on. -/
def open? : List Char → Option (CommentStyle × List Char)
  | '/' :: second :: sign :: rest =>
    match style? second with
    | some style =>
      if sign = '#' ∨ sign = '@' then
        (keyword.isPrefixOf? (rest.dropWhile Text.isGap)).map fun value => (style, value)
      else none
    | none => none
  | _ => none

/-- A line's end without its carriage return. -/
def withoutReturn (rest : List Char) : List Char :=
  match rest.reverse with
  | '\r' :: reversed => reversed.reverse
  | _ => rest

/-- The text without gaps at its end. -/
def withoutGaps (rest : List Char) : List Char := (rest.reverse.dropWhile Text.isGap).reverse

/-- The text without one closing mark at its end and the gaps around that. -/
def withoutClosing (rest : List Char) : List Char :=
  match (withoutGaps rest).reverse with
  | '/' :: '*' :: reversed => withoutGaps reversed.reverse
  | _ => withoutGaps rest

/-- The value of a comment that goes on with `rest` to the end of its line. -/
def value? (rest : List Char) : Option (List Char) :=
  let rest := withoutReturn rest
  if rest.contains '\r' then none else some (withoutClosing rest)

/-- The value of the first comment on a line that has one. -/
def ofLine? : List Char → Option (List Char)
  | [] => none
  | c :: rest =>
    match (open? (c :: rest)).bind fun found => value? found.2 with
    | some value => some value
    | none => ofLine? rest

/-- The values of all comments in a text, trimmed, without the blank ones. -/
def values (content : List Char) : List (List Char) :=
  (((Text.split '\n' content).filterMap ofLine?).map Text.trim).filter (· ≠ [])

/-- What a value refers to. -/
def ofValue (value : List Char) : Reference :=
  if "data:".toList.isPrefixOf value then .inline (String.ofList value)
  else .file (String.ofList (Percent.decode value))

/-- Where the map of a file with this content is, if the content says so. -/
def locate (content : String) : Option Reference :=
  (values content.toList).getLast?.map ofValue

/-- Whether a comment that goes on with `rest` ends the text, up to blanks. -/
def endsText (style : CommentStyle) (rest : List Char) : Bool :=
  match style with
  | .line => (rest.dropWhile fun c => !Text.isLineEnd c).all Text.isBlank
  | .block =>
    match (Text.trimEnd rest).reverse with
    | '/' :: '*' :: inner => inner.all fun c => !Text.isLineEnd c
    | _ => false

/-- The text up to the first comment that ends it. -/
def beforeLast : List Char → List Char
  | [] => []
  | c :: rest =>
    match open? (c :: rest) with
    | some (style, value) => if endsText style value then [] else c :: beforeLast rest
    | none => c :: beforeLast rest

/-- The content without the comment that ends it and without blanks at its end. -/
def strip (content : String) : String := String.ofList (Text.trimEnd (beforeLast content.toList))

end Reference

namespace CommentStyle

/-- The style of a file's comments. Style sheets have block comments only. -/
def ofPath (path : Path) : CommentStyle :=
  match path.extension? with
  | some extension => if extension.map Char.toLower = "css".toList then .block else .line
  | none => .line

/-- The comment that refers to `url`, on a line of its own. -/
def render (style : CommentStyle) (url : String) : String :=
  let value := Percent.encode url.toList
  match style with
  | .line => String.ofList ("\n//# ".toList ++ Reference.keyword ++ value ++ ['\n'])
  | .block => String.ofList ("\n/*# ".toList ++ Reference.keyword ++ value ++ " */\n".toList)

end CommentStyle

end MapChain
