import MapChain.Chain.Basic
import MapChain.Document.DataUrl
import MapChain.Reference

/-!
# Building chains

Building follows the map of a file to its sources and goes on with each of them that
has text. Text and maps can be given up front and then win over what files hold.

The map of a file is the one given for it, or else the one its last reference comment
names. Sources are seen from the directory of the map and its source root. The text of
a source is the one given for its path, or else the one its map carries, or else the
file. A source without text stays unresolved; a map that cannot be read, or a file
whose reading is refused, fails the whole.

A branch never returns to a path that it has come through, but the text that maps carry
can name ever new paths. Every such text is shorter than the one that carries it unless
the map is a file or was given, and there are only so many of those. So the depth of a
tree is bounded by the texts at hand, and `depth` is the bound that the recursion runs
on.
-/

namespace MapChain

/-- The sources of a document, and the texts that it carries with their characters. -/
def Document.volume (document : Document) : Nat :=
  document.sources.length +
    volumeOf (fun content => (content.getD "").length) (document.contents.getD [])

/-- Texts and maps that win over files. Relative paths are seen from the working
directory, and of two entries for one file the last one counts. -/
structure Overrides where
  contents : List (Path × String) := []
  maps : List (Path × Document) := []

namespace Overrides

/-- The last entry for the file at `path`. -/
def entry? (cwd path : Path) (entries : List (Path × α)) : Option α :=
  (entries.reverse.find? fun entry => cwd.resolve entry.1 = path).map (·.2)

/-- The texts, documents and sources, and the characters in them. -/
def volume (overrides : Overrides) : Nat :=
  volumeOf (fun entry => entry.2.length) overrides.contents +
    volumeOf (fun entry => entry.2.volume) overrides.maps

end Overrides

/-- What building reads from. -/
structure Workspace where
  provider : Provider
  overrides : Overrides := {}

/-- A map that is followed: its table, and the directory its sources are seen from. -/
structure Link where
  table : Table
  directory : Path
  deriving DecidableEq

namespace Workspace

/-- The text given for a path. -/
def given? (workspace : Workspace) (path : Path) : Option String :=
  Overrides.entry? workspace.provider.cwd path workspace.overrides.contents

/-- The map given for the file at a path. -/
def givenMap? (workspace : Workspace) (path : Path) : Option Document :=
  Overrides.entry? workspace.provider.cwd path workspace.overrides.maps

/-- The text at a path, the given one first. -/
def text (workspace : Workspace) (path : Path) : Except Fault String :=
  match workspace.given? path with
  | some text => .ok text
  | none => workspace.provider.readText path

/-- The text at a path that a chain cannot do without. -/
def required (workspace : Workspace) (path : Path) : Except ChainError String :=
  (workspace.text path).mapError (.ofFault path)

/-- The document of a file's map and the directory it lies in, if the file has a map. -/
def document? (workspace : Workspace) (path : Path) (content : String) :
    Except ChainError (Option (Document × Path)) :=
  match workspace.givenMap? path with
  | some document => .ok (some (document, path.parent))
  | none =>
    match Reference.locate content with
    | none => .ok none
    | some (.inline url) =>
      match Document.ofDataUrl url with
      | .ok document => .ok (some (document, path.parent))
      | .error error => .error (.ofMapError (.inline path) error)
    | some (.file target) => do
      let place := path.parent.resolve (.ofText target)
      match Document.ofText (← workspace.required place) with
      | .ok document => .ok (some (document, place.parent))
      | .error error => .error (.ofMapError (.file place) error)

/-- The directory that a document's sources are seen from. -/
def sourceDirectory (document : Document) (directory : Path) : Path :=
  match document.sourceRoot with
  | some root => if root = "" then directory else directory.resolve (.ofText root)
  | none => directory

/-- The map of a file, if the file has one. -/
def link? (workspace : Workspace) (path : Path) (content : String) :
    Except ChainError (Option Link) := do
  match ← workspace.document? path content with
  | none => return none
  | some (document, directory) =>
    match document.table with
    | .ok table => return some ⟨table, sourceDirectory document directory⟩
    | .error error => .error (.ofMapError (.file path) error)

/-- The text of a source; none if there is no file or its bytes are no text. -/
def sourceText? (workspace : Workspace) (path : Path) (carried : Option String) :
    Except ChainError (Option String) :=
  match workspace.given? path with
  | some text => .ok (some text)
  | none =>
    match carried with
    | some text => .ok (some text)
    | none =>
      match workspace.provider.readText path with
      | .ok text => .ok (some text)
      | .error (.refused cause) => .error (.ofFault path (.refused cause))
      | .error _ => .ok none

/-- What a source leads to. `branch` holds the paths from the file whose map lists it
up to the root, and `follow` resolves a file below them. -/
def resolveSource (workspace : Workspace) (directory : Path) (branch : List Path)
    (follow : Path → String → Except ChainError Resolution) (entry : String × Option String) :
    Except ChainError Resolution :=
  if entry.1.toList.all Text.isBlank then .ok .blank
  else
    let path := directory.resolve (.ofText entry.1)
    if path ∈ branch then .ok (.ancestor path)
    else do
      match ← workspace.sourceText? path entry.2 with
      | none => return .unresolved path
      | some content => follow path content

/-- Resolves a file with known text and all that its map leads to. The first source
that fails decides the error. -/
def resolve (workspace : Workspace) :
    (depth : Nat) → Path → String → (above : List Path) → Except ChainError Resolution
  | 0, path, _, _ => .error (.tooDeep path)
  | depth + 1, path, content, above => do
    match ← workspace.link? path content with
    | none => return .file path content none []
    | some link =>
      let branch := path :: above
      let follow := fun path content => workspace.resolve depth path content branch
      let children ← (link.table.sources.zip link.table.contents).mapM
        (workspace.resolveSource link.directory branch follow)
      return .file path content (some link.table) children

/-- A bound for how many maps can stand behind one another below a file with this text. -/
def depth (workspace : Workspace) (content : String) : Nat :=
  let volume := workspace.provider.volume + workspace.overrides.volume + content.length + 2
  volume * volume

/-- The chain of a file with known text. -/
def chain (workspace : Workspace) (path : Path) (content : String) : Except ChainError Chain := do
  return .ofTree workspace.provider.cwd
    (← workspace.resolve (workspace.depth content) path content [])

end Workspace

namespace Chain

/-- The chain of the file at a path. -/
def build (workspace : Workspace) (root : Path) : Except ChainError Chain := do
  let path := workspace.provider.cwd.resolve root
  workspace.chain path (← workspace.required path)

/-- The chain of a text without a file, which goes by a name of its own in the working
directory. -/
def buildContent (workspace : Workspace) (content : String) : Except ChainError Chain :=
  workspace.chain (workspace.provider.cwd.under .anonymous) content

end Chain

end MapChain
