import MapChain.Path.Spelling
import MapChain.Store.Provider

/-!
# Files on disk

A disk is a tree of directories and regular files, kept as the entries at their
locations. Paths are looked up part by part, and every part but the last has to be a
directory. A spelling that ends in a separator or a point names a directory only.
Writing creates the directories above a file first, and what it created stays if it
fails later.

There are no links and no permissions, and nothing limits how much fits on a disk. The
length of names and of spellings is limited.
-/

namespace MapChain

/-- What is at a location. -/
inductive Entry where
  | directory
  | file (bytes : List UInt8)
  deriving DecidableEq, Repr

/-- The bytes of an entry. -/
def Entry.size : Entry → Nat
  | .directory => 0
  | .file bytes => bytes.length

/-- A file tree and the directory that relative paths are seen from. Locations are
absolute, without steps up; the root needs no entry. -/
structure Disk where
  cwd : Path
  entries : List (Path × Entry) := []

namespace Disk

/-- The most bytes that a name can have. -/
def nameLimit : Nat := 255

/-- One more than the most bytes that a spelling can have. -/
def spellingLimit : Nat := 4096

/-- A fault whose reason is the system's own. -/
def refused : Fault := .refused .system

/-- Whether the system takes a spelling at all. -/
def vet (spelling : List Char) : Except Fault Unit :=
  if spelling.contains '\x00' then .error (.refused .nulByte)
  else if spellingLimit ≤ (Utf8.encode spelling).length then .error refused
  else .ok ()

/-- Whether a name is longer than any entry's. -/
def isTooLong (name : Name) : Bool := nameLimit < (Utf8.encode name.text).length

/-- The location of a name in a directory. -/
def child (place : Path) (name : Name) : Path := { place with parts := place.parts ++ [.name name] }

/-- What is at a location. -/
def entry? (disk : Disk) (place : Path) : Option Entry :=
  if place = .root then some .directory else disk.entries.lookup place

/-- The disk with another entry at a location. -/
def insert (disk : Disk) (place : Path) (entry : Entry) : Disk :=
  { disk with entries := (place, entry) :: disk.entries.filter fun known => known.1 ≠ place }

/-- Follows parts from a location. -/
def walk (disk : Disk) (place : Path) : List Part → Except Fault Path
  | [] => .ok place
  | part :: parts =>
    match disk.entry? place with
    | none => .error .missing
    | some (.file _) => .error refused
    | some .directory =>
      match part with
      | .here => walk disk place parts
      | .up => walk disk place.parent parts
      | .name name =>
        if isTooLong name then .error refused
        else if (disk.entry? (child place name)).isSome then walk disk (child place name) parts
        else .error .missing

/-- Where the parts of a path start. -/
def start (disk : Disk) (path : Path) : Path := if path.absolute then .root else disk.cwd

/-- The location that a path leads to. The path without parts leads nowhere. -/
def locate (disk : Disk) (path : Path) : Except Fault Path :=
  if path = .empty then .error .missing else disk.walk (disk.start path) path.parts

/-- The bytes of the file at a path. -/
def read (disk : Disk) (path : Path) : Except Fault (List UInt8) := do
  vet path.chars
  match disk.entry? (← disk.locate path) with
  | some (.file bytes) => return bytes
  | some .directory => .error refused
  | none => .error .missing

/-- The bytes of the file at a path as it is spelled. -/
def readSpelled (disk : Disk) (spelling : List Char) : Except Fault (List UInt8) := do
  vet spelling
  if Path.Spelling.namesDirectory spelling then
    let _ ← disk.locate (.ofChars spelling)
    .error refused
  else disk.read (.ofChars spelling)

/-- Follows parts from a location and creates the directories that are missing. -/
def makeDirectories (disk : Disk) (place : Path) : List Part → Disk × Except Fault Path
  | [] =>
    match disk.entry? place with
    | some .directory => (disk, .ok place)
    | _ => (disk, .error refused)
  | part :: parts =>
    match disk.entry? place with
    | some .directory =>
      match part with
      | .here => makeDirectories disk place parts
      | .up => makeDirectories disk place.parent parts
      | .name name =>
        if isTooLong name then (disk, .error refused)
        else if (disk.entry? (child place name)).isSome then
          makeDirectories disk (child place name) parts
        else makeDirectories (disk.insert (child place name) .directory) (child place name) parts
    | _ => (disk, .error refused)

/-- Creates the directory at a path as it is spelled, and those above it. -/
def makeDirectory (disk : Disk) (spelling : List Char) : Disk × Option Fault :=
  match vet spelling with
  | .error fault => (disk, some fault)
  | .ok _ =>
    let path := Path.ofChars spelling
    match disk.makeDirectories (disk.start path) path.parts with
    | (disk, .ok _) => (disk, none)
    | (disk, .error fault) => (disk, some fault)

/-- Where a file can be written: a name in a directory, where no directory is. A
spelling that ends in a point or a step up is looked up as a whole, so what it leads
through has to exist; one that ends in a separator is refused as it is. -/
def target (disk : Disk) (spelling : List Char) : Except Fault Path := do
  vet spelling
  let path := Path.ofChars spelling
  match Path.Spelling.lastName? spelling with
  | some name =>
    let directory ← disk.walk (disk.start path) path.parts.dropLast
    match disk.entry? directory with
    | none => .error .missing
    | some (.file _) => .error refused
    | some .directory =>
      if Path.Spelling.endsInSeparator spelling ∨ isTooLong name then .error refused
      match disk.entry? (child directory name) with
      | some .directory => .error refused
      | _ => return child directory name
  | none =>
    let _ ← disk.locate path
    .error refused

/-- Writes a file at a path as it is spelled. A failure to create the directory above
it is reported at that directory. -/
def writeSpelled (disk : Disk) (spelling : List Char) (bytes : List UInt8) :
    Disk × Option FileError :=
  let above := (Path.Spelling.parent? spelling).getD []
  let (disk, failed) := if above = [] then (disk, none) else disk.makeDirectory above
  match failed with
  | some fault => (disk, some ⟨String.ofList above, fault⟩)
  | none =>
    match disk.target spelling with
    | .error fault => (disk, some ⟨String.ofList spelling, fault⟩)
    | .ok place => (disk.insert place (.file bytes), none)

/-- Writes a file. -/
def write (disk : Disk) (path : Path) (bytes : List UInt8) : Disk × Option FileError :=
  disk.writeSpelled path.chars bytes

/-- The entries and the bytes in them. -/
def volume (disk : Disk) : Nat := volumeOf (fun known => known.2.size) disk.entries

/-- What the builder sees of the disk. -/
def provider (disk : Disk) : Provider := ⟨disk.cwd, disk.read, disk.volume⟩

/-- A disk without files whose relative paths are seen from `cwd`, which exists with
the directories above it. -/
def startingAt (cwd : Path) : Disk :=
  ((Disk.mk cwd []).makeDirectories .root cwd.parts).1

/-- The files of a disk with their locations. -/
def files (disk : Disk) : List (Path × List UInt8) :=
  disk.entries.filterMap fun known =>
    match known.2 with
    | .file bytes => some (known.1, bytes)
    | .directory => none

/-- The path of a location as seen from a directory above it. -/
def below? (directory place : Path) : Option Path :=
  (directory.parts.isPrefixOf? place.parts).map fun parts => ⟨false, parts⟩

/-- The files below a directory that are new or have other bytes than before, in the
order of their spellings as seen from there. -/
def changes (before after : Disk) (directory : Path) : List (String × List UInt8) :=
  let changed := after.files.filter fun file =>
    before.entry? file.1 ≠ some (.file file.2)
  let seen := changed.filterMap fun file =>
    (below? directory file.1).map fun path => (path.text, file.2)
  seen.mergeSort fun first second => first.1 ≤ second.1

end Disk

end MapChain
