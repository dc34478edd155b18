import MapChain.Text.Split

/-!
# Paths

A path is a sequence of parts, absolute or not: names, steps up, and references to the
directory itself. Parsing keeps such a reference only where it leads a relative path;
empty pieces vanish altogether. Two spellings of the same parts are the same path.

No function here looks at files. `normalize` removes what can be removed by looking at
the parts alone, and `resolve` names a file as seen from a directory. A name is checked
when it is made, so a written path reads back as itself.
-/

namespace MapChain

/-- What may stand between two separators as the name of a file. -/
def isName (text : List Char) : Bool :=
  text != [] && text != ['.'] && text != ['.', '.'] && !text.contains '/'

/-- The name of a file or directory. -/
structure Name where
  text : List Char
  valid : isName text = true
  deriving DecidableEq

/-- One part of a path. -/
inductive Part where
  /-- The directory itself. -/
  | here
  /-- The directory above. -/
  | up
  | name (name : Name)
  deriving DecidableEq

/-- The part that a piece between separators spells, if it is not void. -/
def Part.ofPiece? (piece : List Char) : Option Part :=
  if piece = ['.', '.'] then some .up
  else if valid : isName piece = true then some (.name ⟨piece, valid⟩)
  else none

/-- A part as it is written. -/
def Part.text : Part → List Char
  | .here => ['.']
  | .up => ['.', '.']
  | .name label => label.text

/-- A path to a file or directory. -/
structure Path where
  absolute : Bool
  parts : List Part
  deriving DecidableEq

namespace Path

/-- The root directory. -/
def root : Path := ⟨true, []⟩

/-- The path without parts, which names nothing. -/
def empty : Path := ⟨false, []⟩

/-- The path that a text spells. -/
def ofChars (text : List Char) : Path :=
  let pieces := Text.split '/' text
  if text.head? = some '/' then ⟨true, pieces.filterMap Part.ofPiece?⟩
  else if pieces.head? = some ['.'] then ⟨false, .here :: pieces.filterMap Part.ofPiece?⟩
  else ⟨false, pieces.filterMap Part.ofPiece?⟩

/-- A path as it is written. -/
def chars (path : Path) : List Char :=
  (if path.absolute then ['/'] else []) ++ Text.join '/' (path.parts.map Part.text)

/-- The path that a text spells. -/
def ofText (text : String) : Path := ofChars text.toList

/-- A path as it is written. -/
def text (path : Path) : String := String.ofList path.chars

/-- `path` as seen from the directory `base`. An absolute path is seen alike from
everywhere. -/
def under (base path : Path) : Path :=
  if path.absolute ∨ base = empty then path
  else { base with parts := base.parts ++ path.parts.filter (· ≠ .here) }

/-- Takes one more part onto a stack of parts, the last one on top. A step up removes a
name; at the root it leads nowhere, and elsewhere it stays. -/
def push (absolute : Bool) (stack : List Part) : Part → List Part
  | .here => stack
  | .name name => .name name :: stack
  | .up =>
    match stack with
    | .name _ :: below => below
    | [] => if absolute then [] else [.up]
    | stack => .up :: stack

/-- The path without references to the directory itself and without steps up that
follow a name or the root. -/
def normalize (path : Path) : Path :=
  { path with parts := (path.parts.foldl (push path.absolute) []).reverse }

/-- The normal path of `path` as seen from the directory `base`. -/
def resolve (base path : Path) : Path := (base.under path).normalize

/-- The directory that holds a path; the path itself if it has no parts. -/
def parent (path : Path) : Path := { path with parts := path.parts.dropLast }

/-- The last name of a path; empty if the path does not end in a name. -/
def fileName (path : Path) : List Char :=
  match path.parts.getLast? with
  | some (.name name) => name.text
  | _ => []

/-- What follows the last point of the file name, if something stands in front of it. -/
def extension? (path : Path) : Option (List Char) :=
  let reversed := path.fileName.reverse
  match reversed.dropWhile (· != '.') with
  | _ :: _ :: _ => some (reversed.takeWhile (· != '.')).reverse
  | _ => none

/-- The path with more text behind its last part. -/
def append (path : Path) (suffix : List Char) : Path := ofChars (path.chars ++ suffix)

/-- The name under which content without a file takes part in a chain. -/
def anonymous : Path := ofText "<anonymous>"

end Path

end MapChain
