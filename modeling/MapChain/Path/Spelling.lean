import MapChain.Path.Basic

/-!
# Spellings of paths

Messages quote paths as they were given. The functions here cut a spelling without
rewriting what is left, so doubled separators and inner points survive.
-/

namespace MapChain.Path.Spelling

/-- A piece that adds no part to a path behind its first piece. -/
def isVoid (piece : List Char) : Bool := piece == [] || piece == ['.']

/-- The pieces without the void ones at the end. -/
def trimVoid (pieces : List (List Char)) : List (List Char) :=
  (pieces.reverse.dropWhile isVoid).reverse

/-- The pieces without the last part, or none if there is no part. -/
def withoutLast? (pieces : List (List Char)) : Option (List (List Char)) :=
  match trimVoid pieces with
  | [] => none
  | parts => some (trimVoid parts.dropLast)

/-- The spelling up to its last part, if it has a part. -/
def parent? (text : List Char) : Option (List Char) :=
  match Text.split '/' text with
  | [] :: second :: pieces =>
    (withoutLast? (second :: pieces)).map fun kept => '/' :: Text.join '/' kept
  | ['.'] :: pieces =>
    match withoutLast? pieces with
    | some kept => some (Text.join '/' (['.'] :: kept))
    | none => some []
  | pieces => (withoutLast? pieces).map (Text.join '/')

/-- The spelling up to its last part, or the whole if it has none. -/
def parent (text : List Char) : List Char := (parent? text).getD text

/-- Whether a spelling can only name a directory, because it ends in a void piece. -/
def namesDirectory (text : List Char) : Bool :=
  match (Text.split '/' text).reverse with
  | last :: _ :: _ => isVoid last
  | _ => false

/-- The name that a spelling ends in. Separators may stand behind it; a final point
means the directory itself and is no name. -/
def lastName? (text : List Char) : Option Name :=
  match ((Text.split '/' text).filter (· ≠ [])).getLast? with
  | some piece => if valid : isName piece = true then some ⟨piece, valid⟩ else none
  | none => none

/-- Whether a spelling ends in a separator. -/
def endsInSeparator (text : List Char) : Bool := text.getLast? = some '/'

end MapChain.Path.Spelling
