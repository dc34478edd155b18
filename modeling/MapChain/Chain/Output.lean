import MapChain.Chain.Flatten
import MapChain.Document.DataUrl
import MapChain.Reference
import MapChain.Store

/-!
# Writing chains

The root of a chain can be written out again with its flattened map: the reference
comment that ended it gives way to a new one, and the map goes to a file beside it or
into the comment. Rendering says what would be written; writing puts the content in
place first and then the map, and stops at the first failure.
-/

namespace MapChain

/-- How a root and its map are written. -/
structure OutputOptions where
  /-- The directory that sources are seen from; none for that of the destination. -/
  base : Option Path := none
  /-- Whether the comment names the map by its absolute path. -/
  absolutePath : Bool := false
  /-- Whether the comment carries the map. -/
  inline : Bool := false
  /-- Whether the map carries the texts of its sources. -/
  includeContent : Bool := true

/-- What is written, and where. -/
structure Output where
  path : Path
  content : String
  map : Document
  /-- None if the content carries the map. -/
  mapPath : Option Path
  deriving DecidableEq

/-- What a map's file name has behind that of the file it describes. -/
def mapSuffix : List Char := ".map".toList

namespace Chain

/-- Where the root of a chain is written. -/
def destination (chain : Chain) (given : Option Path) : Path :=
  match given with
  | some path => chain.cwd.resolve path
  | none => chain.rootPath

/-- The map that goes with a root written to `path`. -/
def outputMap (chain : Chain) (path : Path) (options : OutputOptions) : Document :=
  let base :=
    match options.base with
    | some base => chain.cwd.resolve base
    | none => path.parent
  { chain.flatten { base := some base, includeContent := options.includeContent } with
    file := some (String.ofList path.fileName) }

/-- What the comment of a root names: the map itself, or the file it is in. -/
def outputUrl (map : Document) (mapPath : Path) (options : OutputOptions) : String :=
  if options.inline then map.toDataUrl
  else if options.absolutePath then mapPath.text
  else String.ofList mapPath.fileName

/-- The root's content without the comment that ended it. -/
def strippedContent (chain : Chain) : String :=
  Reference.strip ((chain.root?.map (·.content)).getD "")

/-- What writing a chain would write. -/
def render (chain : Chain) (given : Option Path) (options : OutputOptions) : Output :=
  let path := chain.destination given
  let map := chain.outputMap path options
  let mapPath := path.append mapSuffix
  let comment := (CommentStyle.ofPath path).render (outputUrl map mapPath options)
  ⟨path, chain.strippedContent ++ comment, map, if options.inline then none else some mapPath⟩

end Chain

namespace Output

/-- The files that are written, in order. -/
def files (output : Output) : List (Path × String) :=
  (output.path, output.content) ::
    (output.mapPath.map fun path => (path, output.map.toText)).toList

end Output

namespace Disk

/-- Writes files one after the other up to the first that fails. -/
def writeAll (disk : Disk) : List (Path × String) → Disk × Option FileError
  | [] => (disk, none)
  | (path, content) :: rest =>
    match disk.write path (bytesOfText content) with
    | (disk, none) => writeAll disk rest
    | (disk, some error) => (disk, some error)

/-- Writes an output. -/
def persist (disk : Disk) (output : Output) : Disk × Option FileError :=
  disk.writeAll output.files

end Disk

namespace Memory

/-- Writes files one after the other. -/
def writeAll (memory : Memory) (files : List (Path × String)) : Memory :=
  files.foldl (fun memory file => memory.put file.1 (bytesOfText file.2)) memory

/-- Writes an output. -/
def persist (memory : Memory) (output : Output) : Memory := memory.writeAll output.files

end Memory

namespace Store

/-- Writes an output. -/
def persist (store : Store) (output : Output) : Store × Option FileError :=
  match store with
  | .inMemory memory => (.inMemory (memory.persist output), none)
  | .onDisk disk access =>
    let (disk, failed) := disk.persist output
    (.onDisk disk access, failed)

end Store

end MapChain
