import MapChain.Chain.Trace
import MapChain.Document.Basic
import MapChain.Path.Relative

/-!
# Flattening chains

Flattening follows every segment of the root's map to its end and writes one map that
leads there at once. Unmapped markers stay, and segments that lead nowhere are dropped.
Sources and names are listed as they are first reached, the root's lines from top to
bottom and each line from left to right. The text of a source is the one that the
first segment to reach it found.
-/

namespace MapChain

/-- How a flattened map is written. -/
structure FlattenOptions where
  /-- The directory that sources are seen from; none for that of the root. -/
  base : Option Path := none
  /-- Whether the map carries the texts of its sources. -/
  includeContent : Bool := true

/-- The sources and names that have been reached. -/
structure Reached where
  sources : List (Path × Option String) := []
  names : List String := []

namespace Reached

/-- The index of a source, which is added with its text if it is new. -/
def source (reached : Reached) (path : Path) (content : Option String) : Reached × Nat :=
  match reached.sources.findIdx? fun known => known.1 = path with
  | some index => (reached, index)
  | none => ({ reached with sources := reached.sources ++ [(path, content)] },
      reached.sources.length)

/-- The index of a name, which is added if it is new. -/
def name (reached : Reached) (name : String) : Reached × Nat :=
  match reached.names.findIdx? fun known => known = name with
  | some index => (reached, index)
  | none => ({ reached with names := reached.names ++ [name] }, reached.names.length)

/-- The index of a name, if there is one. -/
def name? (reached : Reached) : Option String → Reached × Option UInt32
  | none => (reached, none)
  | some name =>
    let (reached, index) := reached.name name
    (reached, some (UInt32.ofNat index))

/-- The origin that a hit is written as. -/
def origin (reached : Reached) (hit : Hit) : Reached × Origin :=
  let location := hit.location
  let (reached, source) := reached.source location.source hit.content
  let (reached, name) := reached.name? location.name
  let line := if location.line = 0 then 0 else location.line - 1
  (reached, ⟨UInt32.ofNat source, line, location.column, name⟩)

end Reached

namespace Chain

/-- The segments that a line of the root's map becomes. -/
def flattenLine (chain : Chain) (reached : Reached) : List Segment → Reached × List Segment
  | [] => (reached, [])
  | segment :: rest =>
    if segment.origin.isNone then
      let (reached, line) := flattenLine chain reached rest
      (reached, .unmapped segment.column :: line)
    else
      match chain.followRoot segment with
      | none => flattenLine chain reached rest
      | some hit =>
        let (reached, origin) := reached.origin hit
        let (reached, line) := flattenLine chain reached rest
        (reached, ⟨segment.column, some origin⟩ :: line)

/-- The lines that the lines of the root's map become. -/
def flattenLines (chain : Chain) (reached : Reached) :
    List (List Segment) → Reached × List (List Segment)
  | [] => (reached, [])
  | line :: rest =>
    let (reached, line) := chain.flattenLine reached line
    let (reached, lines) := flattenLines chain reached rest
    (reached, line :: lines)

/-- The lines of the root's map; none if it has no map. -/
def rootLines (chain : Chain) : List (List Segment) :=
  ((chain.root?.bind (·.table)).map (·.lines)).getD []

/-- The path of the root. -/
def rootPath (chain : Chain) : Path := (chain.root?.map (·.path)).getD .empty

/-- The directory that the sources of a flattened map are seen from. -/
def flattenBase (chain : Chain) (options : FlattenOptions) : Path :=
  match options.base with
  | some base => chain.cwd.resolve base
  | none => chain.rootPath.parent

/-- The map that leads from the root straight to the ends of the chain. -/
def flatten (chain : Chain) (options : FlattenOptions := {}) : Document :=
  let base := chain.flattenBase options
  let (reached, lines) := chain.flattenLines {} chain.rootLines
  { version := Document.supported
    file := some (String.ofList chain.rootPath.fileName)
    sources := reached.sources.map fun source => (source.1.relativeTo base).text
    contents := some (reached.sources.map fun source =>
      if options.includeContent then source.2 else none)
    names := reached.names
    mappings := Codec.encode lines }

end Chain

end MapChain
